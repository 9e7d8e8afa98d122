import TemplateFill.Proofs.Bookmark.FlatForm
import TemplateFill.Proofs.Bookmark.Landing
import TemplateFill.Proofs.Bookmark.Refill

/-!
# From flat form to flat form

Regrouped, resolved, wrapped and flattened again, flat siblings stay in their order.  Paragraph
properties that a mark takes in move into the mark, and a run that gets a paragraph of its own
is followed by a mark.
-/

namespace TemplateFill.Node

section Definitions

variable (spell : Term → QName) (text : String)

/-- What flat siblings below a node of kind `outer` become on the way to the next flat form.  The
properties in `carry` are on their way into the next mark. -/
def reflow (outer : Kind) (carry : List Node) : List Node → List Node
  | [] => []
  | node :: rest =>
      if node.isParagraph then
        node.mapChildren (fun props => props.map (finish spell text .paragraph) ++ carry) ::
          reflow outer [] rest
      else if node.isParagraphProps ∧ firstGroupMarked rest then
        reflow outer (carry ++ [finish spell text .paragraph node.regroup]) rest
      else
        flattenNode (finish spell text (landing outer node rest) node.regroup) ++
          reflow outer carry rest

/-- What a node that is no placeholder becomes. -/
def renewed (node : Node) : Node :=
  (wrapRunsIn spell (resolveIn spell text .generic node.regroup)).flatten

end Definitions

section Finish

variable {spell : Term → QName} {text : String}

theorem finish_paragraph {name : QName} (paragraph : name.kind = .paragraph) (outer : Kind)
    (attrs : List Attr) (children : List Node) :
    finish spell text outer (.element name attrs children) =
      .element name attrs (children.map (finish spell text .paragraph)) := by
  have other : (element name attrs children).kind ≠ .placeholder := by simp [paragraph]
  have noRun : (resolveIn spell text outer (.element name attrs children)).kind ≠ .run := by
    rw [kind_resolveIn other, kind_element, paragraph]
    decide
  rw [finish, if_neg fun both => noRun both.2, wrapRunsIn_resolveIn_element other, paragraph]

theorem kind_resolveIn_placeholder (spells : SpellsWords spell) (text : String) (outer : Kind)
    {node : Node} (placeholder : node.kind = .placeholder) :
    (resolveIn spell text outer node).kind =
      if outer.holdsParagraphs then .paragraph else .run := by
  cases node with
  | element name attrs children =>
      rw [kind_element] at placeholder
      rw [resolveIn, if_pos placeholder]
      split
      · exact spells.paragraph
      · exact spells.run
  | text | comment => cases placeholder

/-- Only runs and placeholders change their kinds, and they become runs or paragraphs. -/
theorem kind_finish (spells : SpellsWords spell) (text : String) (outer : Kind) (node : Node) :
    (finish spell text outer node).kind = node.kind ∨
      (node.kind = .placeholder ∨ node.kind = .run) ∧
        ((finish spell text outer node).kind = .run ∨
          (finish spell text outer node).kind = .paragraph) := by
  by_cases placeholder : node.kind = .placeholder
  · right
    refine ⟨.inl placeholder, ?_⟩
    rw [finish]
    split
    · exact .inr spells.paragraph
    · rw [kind_wrapRunsIn, kind_resolveIn_placeholder spells text outer placeholder]
      split
      · exact .inr rfl
      · exact .inl rfl
  · rw [finish, kind_resolveIn placeholder]
    split
    · rename_i both
      exact .inr ⟨.inr both.2, .inr spells.paragraph⟩
    · left
      rw [kind_wrapRunsIn, kind_resolveIn placeholder]

theorem isParagraphProps_finish (spells : SpellsWords spell) (outer : Kind) (node : Node) :
    (finish spell text outer node).isParagraphProps = node.isParagraphProps := by
  rw [isParagraphProps, isParagraphProps]
  rcases kind_finish spells text outer node with same | ⟨old, new⟩
  · rw [same]
  · rcases old with old | old <;> rcases new with new | new <;> rw [old, new] <;> rfl

theorem resolveIn_congr {node : Node} (other : node.kind ≠ .placeholder) (outer outer' : Kind) :
    resolveIn spell text outer node = resolveIn spell text outer' node := by
  cases node with
  | element name attrs children =>
      rw [kind_element] at other
      rw [resolveIn, if_neg other, resolveIn, if_neg other]
  | text | comment => rfl

/-- A paragraph around one node becomes the node and a mark. -/
theorem flattenNode_wrapped (spells : SpellsWords spell) {node : Node}
    (noParagraph : node.isParagraph = false) (noProps : node.isParagraphProps = false) :
    flattenNode (.element (spell Term.paragraph) [] [node]) =
      [node.flatten, .element (spell Term.paragraph) [] []] := by
  rw [flattenNode_paragraph spells.paragraph, List.filter_cons_of_pos (by simp [noProps]),
    List.filter_cons_of_neg (by simp [noProps]), List.filter_nil, List.filter_nil, flattenAll,
    flattenNode_of_not_paragraph noParagraph]
  rfl

theorem label_renewed (spell : Term → QName) (text : String) {node : Node}
    (other : node.kind ≠ .placeholder) : (renewed spell text node).label = node.label := by
  rw [renewed, label_flatten, label_wrapRunsIn,
    label_resolveIn (by rw [kind_regroup]; exact other), label_regroup]

theorem everyLabel_renewed {property : Label → Prop} (spells : SpellsWords spell)
    (allows : AllowsNew property spell text) {node : Node}
    (every : EveryLabel property (fillIn spell text node)) :
    EveryLabel property (renewed spell text node) := by
  apply everyLabel_flatten
  apply everyLabel_wrapRunsIn allows.paragraph
  apply everyLabel_resolveIn allows
  rw [← regroup_fillIn spells]
  exact everyLabel_regroup every

/-- A node becomes one node, and a mark behind it if it is a run that gets a paragraph. -/
theorem flattenNode_finish (spells : SpellsWords spell) {outer : Kind} {node : Node}
    (noParagraph : node.isParagraph = false) (other : node.kind ≠ .placeholder) :
    flattenNode (finish spell text outer node.regroup) =
      renewed spell text node ::
        if outer = .body ∧ node.kind = .run then [.element (spell Term.paragraph) [] []]
        else [] := by
  have regrouped : node.regroup.kind ≠ .placeholder := by rwa [kind_regroup]
  have kind : (wrapRunsIn spell (resolveIn spell text outer node.regroup)).kind = node.kind := by
    rw [kind_wrapRunsIn, kind_resolveIn regrouped, kind_regroup]
  have lifted :
      (wrapRunsIn spell (resolveIn spell text outer node.regroup)).isParagraph = false := by
    rw [isParagraph, kind]
    exact noParagraph
  rw [finish, kind_resolveIn regrouped, kind_regroup, renewed,
    resolveIn_congr regrouped .generic outer]
  split
  · rename_i both
    apply flattenNode_wrapped spells lifted
    rw [isParagraphProps, kind, both.2]
    rfl
  · exact flattenNode_of_not_paragraph lifted

theorem wrapRunsAll_of_not_body {outer : Kind} (other : outer ≠ .body) (nodes : List Node) :
    wrapRunsAll spell outer nodes = nodes.map (wrapRunsIn spell) := by
  rw [wrapRunsAll_eq_map]
  apply List.map_congr_left
  intro node _
  rw [if_neg fun both => other both.1]

theorem wrapRunsIn_textRun (spells : SpellsWords spell) (formatting : List Node) :
    wrapRunsIn spell (textRun spell formatting text) =
      textRun spell (formatting.map (wrapRunsIn spell)) text := by
  have shown : wrapRunsIn spell (runTextElement spell text) = runTextElement spell text := by
    obtain ⟨attrs, content, same, isText⟩ := exists_runTextElement spell text
    rw [same, wrapRunsIn, wrapRunsAll_of_not_body (by simp [spells.runText])]
    rcases isText with ⟨rfl, _⟩ | rfl <;> rfl
  rw [textRun, wrapRunsIn, wrapRunsAll_of_not_body (by simp [spells.run]), List.map_append,
    List.map_singleton, shown, textRun]

theorem flatten_textRun (spells : SpellsWords spell) (formatting : List Node) :
    (textRun spell formatting text).flatten = textRun spell (flattenAll formatting) text := by
  have shown : flattenNode (runTextElement spell text) = [runTextElement spell text] := by
    obtain ⟨attrs, content, same, isText⟩ := exists_runTextElement spell text
    rw [same, flattenNode, if_neg (by simp [spells.runText])]
    rcases isText with ⟨rfl, _⟩ | rfl <;> rfl
  rw [textRun, flatten_element, flattenAll_append, flattenAll, flattenAll, List.append_nil, shown,
    textRun]

/-- A placeholder becomes a run, and a mark behind it where the parent holds paragraphs. -/
theorem flattenNode_finish_placeholder (spells : SpellsWords spell) (outer : Kind) {name : QName}
    (placeholder : name.kind = .placeholder) (attrs : List Attr) (formatting : List Node) :
    flattenNode (finish spell text outer (regroup (.element name attrs formatting))) =
      textRun spell (flattenAll ((regroupAll formatting).map (wrapRunsIn spell))) text ::
        if outer.holdsParagraphs then [.element (spell Term.paragraph) [] []] else [] := by
  have noParagraph : ∀ inner, (textRun spell inner text).isParagraph = false := by
    intro inner
    rw [isParagraph, textRun, kind_element, spells.run]
    rfl
  have noProps : ∀ inner, (textRun spell inner text).isParagraphProps = false := by
    intro inner
    rw [isParagraphProps, textRun, kind_element, spells.run]
    rfl
  rw [regroup_element, finish, resolveIn, if_pos placeholder]
  cases held : outer.holdsParagraphs with
  | true =>
      rw [if_pos rfl, if_pos rfl, kind_element, spells.paragraph, if_neg (by simp), wrapRunsIn,
        wrapRunsAll_of_not_body (by simp [spells.paragraph]), List.map_singleton,
        wrapRunsIn_textRun spells, flattenNode_wrapped spells (noParagraph _) (noProps _),
        flatten_textRun spells]
  | false =>
      have noBody : outer ≠ .body := by
        intro body
        rw [body] at held
        cases held
      rw [if_neg Bool.false_ne_true, if_neg Bool.false_ne_true, if_neg fun both => noBody both.1,
        wrapRunsIn_textRun spells, flattenNode_of_not_paragraph (noParagraph _),
        flatten_textRun spells]

end Finish

section Reflow

variable {spell : Term → QName} {text : String} {outer : Kind} {carry : List Node}

theorem reflow_mark {name : QName} (paragraph : name.kind = .paragraph) (attrs : List Attr)
    (props rest : List Node) :
    reflow spell text outer carry (.element name attrs props :: rest) =
      .element name attrs (props.map (finish spell text .paragraph) ++ carry) ::
        reflow spell text outer [] rest := by
  rw [reflow, if_pos (by simp [isParagraph, paragraph])]
  rfl

theorem reflow_props {node : Node} {rest : List Node} (isProps : node.isParagraphProps = true)
    (marked : firstGroupMarked rest = true) :
    reflow spell text outer carry (node :: rest) =
      reflow spell text outer (carry ++ [finish spell text .paragraph node.regroup]) rest := by
  have kind : node.kind = .paragraphProps := by simpa [isParagraphProps] using isProps
  rw [reflow, if_neg (by simp [isParagraph, kind]), if_pos ⟨isProps, marked⟩]

theorem reflow_other {node : Node} {rest : List Node} (noParagraph : node.isParagraph = false)
    (stays : node.isParagraphProps = false ∨ firstGroupMarked rest = false) :
    reflow spell text outer carry (node :: rest) =
      flattenNode (finish spell text (landing outer node rest) node.regroup) ++
        reflow spell text outer carry rest := by
  rw [reflow, if_neg (by simp [noParagraph]), if_neg]
  rintro ⟨isProps, marked⟩
  rcases stays with noProps | unmarked
  · rw [isProps] at noProps
    cases noProps
  · rw [marked] at unmarked
    cases unmarked

/-- Inline siblings before a marked group go into its paragraph. -/
private theorem reflow_inline_marked {left tail : List Node} (inline : AllInline left)
    (marked : firstGroupMarked tail = true) :
    reflow spell text outer carry (left ++ tail) =
      flattenAll ((left.filter (!·.isParagraphProps)).map
          fun node => finish spell text .paragraph node.regroup) ++
        reflow spell text outer (carry ++ (left.filter isParagraphProps).map
          fun node => finish spell text .paragraph node.regroup) tail := by
  induction left generalizing carry with
  | nil => simp [flattenAll]
  | cons node rest ih =>
      rcases List.forall_mem_cons.1 inline with ⟨nodeInline, restInline⟩
      have restMarked : firstGroupMarked (rest ++ tail) = true := by
        rw [firstGroupMarked_append_inline restInline, marked]
      rw [List.cons_append]
      cases isProps : node.isParagraphProps with
      | true =>
          rw [reflow_props isProps restMarked, ih restInline]
          simp [isProps]
      | false =>
          rw [reflow_other (not_isParagraph_of_inline nodeInline) (.inl isProps),
            landing_marked nodeInline restMarked, ih restInline]
          simp [isProps, flattenAll]

/-- Inline siblings before a group that no mark closes stay where they are. -/
private theorem reflow_inline_unmarked {left tail : List Node} (inline : AllInline left)
    (unmarked : firstGroupMarked tail = false) :
    reflow spell text outer carry (left ++ tail) =
      flattenAll (left.map fun node => finish spell text outer node.regroup) ++
        reflow spell text outer carry tail := by
  induction left generalizing carry with
  | nil => rfl
  | cons node rest ih =>
      rcases List.forall_mem_cons.1 inline with ⟨nodeInline, restInline⟩
      have restUnmarked : firstGroupMarked (rest ++ tail) = false := by
        rw [firstGroupMarked_append_inline restInline, unmarked]
      rw [List.cons_append, reflow_other (not_isParagraph_of_inline nodeInline) (.inr restUnmarked),
        landing_unmarked (.inr restUnmarked), ih restInline, List.map_cons, flattenAll,
        List.append_assoc]

private theorem isParagraphProps_regroup (node : Node) :
    node.regroup.isParagraphProps = node.isParagraphProps := by
  rw [isParagraphProps, isParagraphProps, kind_regroup]

private theorem filter_props_map {image : Node → Node}
    (keeps : ∀ node, (image node).isParagraphProps = node.isParagraphProps) (nodes : List Node) :
    (nodes.map image).filter isParagraphProps = (nodes.filter isParagraphProps).map image := by
  have same : isParagraphProps ∘ image = isParagraphProps := funext keeps
  rw [List.filter_map, same]

private theorem filter_content_map {image : Node → Node}
    (keeps : ∀ node, (image node).isParagraphProps = node.isParagraphProps) (nodes : List Node) :
    (nodes.map image).filter (!·.isParagraphProps) =
      (nodes.filter (!·.isParagraphProps)).map image := by
  have same : (!·.isParagraphProps) ∘ image = (!·.isParagraphProps) := by
    funext node
    rw [Function.comp_apply, keeps]
  rw [List.filter_map, same]

/-- Regrouped, finished and flattened siblings are what they become one after the other. -/
theorem flattenAll_finish_regroupAll (spells : SpellsWords spell) {nodes : List Node}
    (flat : ∀ node ∈ nodes, FlatSibling True node) :
    flattenAll ((regroupAll nodes).map (finish spell text outer)) =
      reflow spell text outer [] nodes := by
  induction nodes using groupInduction with
  | inline nodes inline =>
      have alone : reflow spell text outer [] (nodes ++ []) =
          flattenAll (nodes.map fun node => finish spell text outer node.regroup) ++ [] :=
        reflow_inline_unmarked inline rfl
      rw [List.append_nil, List.append_nil] at alone
      rw [regroupAll_inline inline, alone, List.map_map]
      rfl
  | mark left name attrs props rest inline kind ih =>
      have later := ih fun node member => flat node (by simp [member])
      have allProps := (flat (.element name attrs props) (by simp)).props_of_mark kind
      rw [regroupAll_paragraph inline kind, List.map_cons, finish_paragraph kind, flattenAll,
        flattenNode_paragraph kind, later, filter_props_map (isParagraphProps_finish spells _),
        filter_content_map (isParagraphProps_finish spells _), List.filter_append,
        List.filter_append, filter_props_map isParagraphProps_regroup,
        filter_content_map isParagraphProps_regroup, List.filter_eq_self.2 allProps,
        List.filter_eq_nil_iff.2 (by simpa using allProps),
        reflow_inline_marked inline (firstGroupMarked_mark kind _ _ _), reflow_mark kind]
      simp [Function.comp_def]
  | block left last rest inline isBlock other ih =>
      have later := ih fun node member => flat node (by simp [member])
      have unmarked : firstGroupMarked (last :: rest) = false := by
        rw [firstGroupMarked_cons_block isBlock, other]
      have noProps : last.isParagraphProps = false := by
        apply Bool.eq_false_iff.2
        intro isProps
        have kind : last.kind = .paragraphProps := by simpa [isParagraphProps] using isProps
        simp [isBlockLevel, kind] at isBlock
      rw [regroupAll_block inline isBlock other, reflow_inline_unmarked inline unmarked,
        reflow_other other (.inl noProps), landing_unmarked (.inl isBlock), List.map_append,
        List.map_cons, flattenAll_append, flattenAll, later, List.map_map]
      rfl

/-- A node that shows nothing and is not changed. -/
structure Quiet (node : Node) : Prop where
  no_run : node.kind ≠ .run
  no_paragraph : node.kind ≠ .paragraph
  no_placeholder : node.kind ≠ .placeholder

/-- What `nodes` become, and what is carried on behind them, has the labels of `nodes` and of what
was carried before, and those of new nodes; and quiet nodes become quiet nodes. -/
structure Turns (spell : Term → QName) (text : String) (carry nodes out carry' : List Node) :
    Prop where
  labels : ∀ property, AllowsNew property spell text → (∀ node ∈ carry, EveryLabel property node) →
    (∀ node ∈ nodes, EveryLabel property (fillIn spell text node)) →
    (∀ node ∈ out, EveryLabel property node) ∧ ∀ node ∈ carry', EveryLabel property node
  quiet : (∀ node ∈ nodes, Quiet node) → ∀ node ∈ out, Quiet node

theorem turns_nil : Turns spell text carry [] [] carry where
  labels _ _ carried _ := ⟨List.forall_mem_nil _, carried⟩
  quiet _ := List.forall_mem_nil _

theorem Turns.cons {node : Node} {rest carry' carry'' first others : List Node}
    (here : Turns spell text carry [node] first carry')
    (later : Turns spell text carry' rest others carry'') :
    Turns spell text carry (node :: rest) (first ++ others) carry'' where
  labels property allows carried every := by
    rcases List.forall_mem_cons.1 every with ⟨nodeEvery, restEvery⟩
    obtain ⟨firstLabels, carried'⟩ :=
      here.labels property allows carried (List.forall_mem_singleton.2 nodeEvery)
    obtain ⟨otherLabels, carried''⟩ := later.labels property allows carried' restEvery
    exact ⟨List.forall_mem_append.2 ⟨firstLabels, otherLabels⟩, carried''⟩
  quiet quietNodes := by
    rcases List.forall_mem_cons.1 quietNodes with ⟨nodeQuiet, restQuiet⟩
    exact List.forall_mem_append.2
      ⟨here.quiet (List.forall_mem_singleton.2 nodeQuiet), later.quiet restQuiet⟩

private theorem turns_mark {name : QName} (paragraph : name.kind = .paragraph) (attrs : List Attr)
    (props : List Node) :
    Turns spell text carry [.element name attrs props]
      [.element name attrs (props.map (finish spell text .paragraph) ++ carry)] [] where
  labels property allows carried every := by
    have here := List.forall_mem_singleton.1 every
    rw [fillIn_element (by simp [paragraph])] at here
    rcases everyLabel_element.1 here with ⟨top, below⟩
    refine ⟨List.forall_mem_singleton.2 (everyLabel_element.2 ⟨top, ?_⟩), List.forall_mem_nil _⟩
    refine List.forall_mem_append.2 ⟨List.forall_mem_map.2 fun prop member => ?_, carried⟩
    exact everyLabel_finish allows (below _ (List.mem_map_of_mem member)) .paragraph
  quiet quietNodes := absurd paragraph (List.forall_mem_singleton.1 quietNodes).no_paragraph

private theorem turns_props (spells : SpellsWords spell) (node : Node) :
    Turns spell text carry [node] [] (carry ++ [finish spell text .paragraph node.regroup]) where
  labels property allows carried every := by
    have here := List.forall_mem_singleton.1 every
    refine ⟨List.forall_mem_nil _, List.forall_mem_append.2 ⟨carried, ?_⟩⟩
    exact List.forall_mem_singleton.2 (everyLabel_finish_regroup spells allows here .paragraph)
  quiet _ := List.forall_mem_nil _

private theorem turns_other (spells : SpellsWords spell) {node : Node}
    (noParagraph : node.isParagraph = false) (outer : Kind) :
    Turns spell text carry [node] (flattenNode (finish spell text outer node.regroup)) carry where
  labels property allows carried every := by
    have here := List.forall_mem_singleton.1 every
    exact ⟨everyLabel_flattenNode (everyLabel_finish_regroup spells allows here outer), carried⟩
  quiet quietNodes := by
    have here := List.forall_mem_singleton.1 quietNodes
    have kind := kind_eq_of_label_eq (label_renewed spell text here.no_placeholder)
    rw [flattenNode_finish spells noParagraph here.no_placeholder,
      if_neg fun both => here.no_run both.2]
    refine List.forall_mem_singleton.2 ⟨?_, ?_, ?_⟩
    · exact kind ▸ here.no_run
    · exact kind ▸ here.no_paragraph
    · exact kind ▸ here.no_placeholder

theorem exists_reflow_step (spells : SpellsWords spell) (node : Node) (rest : List Node) :
    ∃ out carry', reflow spell text outer carry (node :: rest) =
        out ++ reflow spell text outer carry' rest ∧
      Turns spell text carry [node] out carry' := by
  by_cases paragraph : node.isParagraph = true
  · rcases exists_of_isParagraph paragraph with ⟨name, attrs, props, rfl, kind⟩
    rw [reflow_mark kind]
    exact ⟨[_], [], rfl, turns_mark kind attrs props⟩
  · rw [Bool.not_eq_true] at paragraph
    by_cases taken : node.isParagraphProps = true ∧ firstGroupMarked rest = true
    · rw [reflow_props taken.1 taken.2]
      exact ⟨[], _, rfl, turns_props spells node⟩
    · have stays : node.isParagraphProps = false ∨ firstGroupMarked rest = false := by
        cases isProps : node.isParagraphProps with
        | false => exact .inl rfl
        | true => exact .inr (Bool.eq_false_iff.2 fun marked => taken ⟨isProps, marked⟩)
      rw [reflow_other paragraph stays]
      exact ⟨_, carry, rfl, turns_other spells paragraph _⟩

/-- Siblings on the left become siblings on the left. -/
theorem exists_reflow_append (spells : SpellsWords spell) (text : String) (outer : Kind)
    (carry left tail : List Node) :
    ∃ out carry', reflow spell text outer carry (left ++ tail) =
        out ++ reflow spell text outer carry' tail ∧
      Turns spell text carry left out carry' := by
  induction left generalizing carry with
  | nil => exact ⟨[], carry, rfl, turns_nil⟩
  | cons node rest ih =>
      obtain ⟨first, carry', stepped, here⟩ := exists_reflow_step spells node (rest ++ tail)
      obtain ⟨others, carry'', same, later⟩ := ih carry'
      refine ⟨first ++ others, carry'', ?_, here.cons later⟩
      rw [List.cons_append, stepped, same, List.append_assoc]

/-- A node that is neither a paragraph nor properties becomes a node in the same place. -/
theorem exists_reflow_cons (spells : SpellsWords spell) (text : String) (outer : Kind)
    (carry : List Node) {node : Node} (rest : List Node) (noParagraph : node.isParagraph = false)
    (noProps : node.isParagraphProps = false) (other : node.kind ≠ .placeholder) :
    ∃ mark, reflow spell text outer carry (node :: rest) =
      renewed spell text node :: (mark ++ reflow spell text outer carry rest) := by
  rw [reflow_other noParagraph (.inl noProps), flattenNode_finish spells noParagraph other]
  exact ⟨_, rfl⟩

/-- A quiet node that is no properties stays alone in its place. -/
theorem reflow_quiet (spells : SpellsWords spell) {node : Node} (rest : List Node)
    (quiet : Quiet node) (noProps : node.isParagraphProps = false) :
    reflow spell text outer carry (node :: rest) =
      renewed spell text node :: reflow spell text outer carry rest := by
  have noParagraph : node.isParagraph = false := by simpa [isParagraph] using quiet.no_paragraph
  rw [reflow_other noParagraph (.inl noProps),
    flattenNode_finish spells noParagraph quiet.no_placeholder,
    if_neg fun both => quiet.no_run both.2, List.singleton_append]

theorem renewed_element (spells : SpellsWords spell) {name : QName}
    (other : name.kind ≠ .placeholder) (attrs : List Attr) {children : List Node}
    (flat : ∀ child ∈ children, FlatSibling True child) :
    renewed spell text (.element name attrs children) =
      .element name attrs (reflow spell text name.kind [] children) := by
  rw [renewed, regroup_element, wrapRunsIn_resolveIn_element other, flatten_element,
    flattenAll_finish_regroupAll spells flat]

end Reflow

end TemplateFill.Node
