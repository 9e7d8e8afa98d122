import TemplateFill.Bookmark.Placeholder
import TemplateFill.Proofs.Bookmark.Group
import TemplateFill.Proofs.Markup.Place

/-!
# From placeholders to runs

`fillIn` turns placeholders into runs where they are.  It commutes with regrouping, and what the
passes behind the regrouping make differs from it by paragraphs around runs only.
-/

namespace TemplateFill

open TemplateFill.Text

namespace Node

/-- Vocabulary words are spelled so that they keep their kinds. -/
structure SpellsWords (spell : Term → QName) : Prop where
  paragraph : (spell Term.paragraph).kind = .paragraph
  run : (spell Term.run).kind = .run
  runText : (spell Term.runText).kind = .runText

theorem spellsWords_spell (root : Node) : SpellsWords root.spell where
  paragraph := rfl
  run := rfl
  runText := rfl

/-! ## Placeholders turned into runs -/

mutual

/-- Turn the placeholders at and below a node into runs. -/
def fillIn (spell : Term → QName) (text : String) : Node → Node
  | .element name attrs children =>
      if name.kind = .placeholder then textRun spell children text
      else .element name attrs (fillAll spell text children)
  | .text content => .text content
  | .comment content => .comment content

/-- Turn the placeholders at and below siblings into runs. -/
def fillAll (spell : Term → QName) (text : String) : List Node → List Node
  | [] => []
  | node :: rest => fillIn spell text node :: fillAll spell text rest

end

/-- No node of a tree is a placeholder. -/
def PlaceholderFree (node : Node) : Prop := EveryLabel (fun label => label.kind ≠ .placeholder) node

instance (node : Node) : Decidable node.PlaceholderFree :=
  inferInstanceAs (Decidable (EveryLabel _ node))

section FillIn

variable {spell : Term → QName} {text : String}

theorem fillAll_eq_map (nodes : List Node) :
    fillAll spell text nodes = nodes.map (fillIn spell text) := by
  induction nodes with
  | nil => simp [fillAll]
  | cons node rest ih => simp [fillAll, ih]

theorem fillIn_element {name : QName} (other : name.kind ≠ .placeholder) (attrs : List Attr)
    (children : List Node) :
    fillIn spell text (.element name attrs children) =
      .element name attrs (children.map (fillIn spell text)) := by
  rw [fillIn, if_neg other, fillAll_eq_map]

theorem fillIn_placeholder {name : QName} (placeholder : name.kind = .placeholder)
    (attrs : List Attr) (children : List Node) :
    fillIn spell text (.element name attrs children) = textRun spell children text := by
  rw [fillIn, if_pos placeholder]

theorem fillIn_of_placeholderFree {node : Node} (free : node.PlaceholderFree) :
    fillIn spell text node = node := by
  induction node using treeInduction with
  | element name attrs children ih =>
      rcases everyLabel_element.1 free with ⟨top, below⟩
      have same : ∀ child ∈ children, fillIn spell text child = child :=
        fun child member => ih child member (below child member)
      rw [fillIn_element top, List.map_congr_left same, List.map_id']
  | text | comment => simp [fillIn]

theorem map_fillIn_of_placeholderFree {nodes : List Node}
    (free : ∀ node ∈ nodes, node.PlaceholderFree) : nodes.map (fillIn spell text) = nodes := by
  rw [List.map_congr_left fun node member => fillIn_of_placeholderFree (free node member),
    List.map_id']

/-- In a document without placeholders only the node that is put there is filled in. -/
theorem Reaches.fillIn_replaceAt {passes : List Node → Node → Prop} {root target node : Node}
    {path : Path} (reached : Reaches passes root path target) (free : root.PlaceholderFree) :
    fillIn spell text (root.replaceAt path node) =
      root.replaceAt path (fillIn spell text node) := by
  induction reached with
  | here => rfl
  | down _ _ ih =>
      rcases everyLabel_element.1 free with ⟨top, below⟩
      simp only [List.forall_mem_append, List.forall_mem_cons] at below
      rcases below with ⟨leftFree, childFree, rightFree⟩
      rw [replaceAt_down, replaceAt_down, fillIn_element top, List.map_append, List.map_cons,
        ih childFree, map_fillIn_of_placeholderFree leftFree,
        map_fillIn_of_placeholderFree rightFree]

theorem kind_fillIn (spells : SpellsWords spell) (node : Node) :
    (fillIn spell text node).kind = if node.kind = .placeholder then .run else node.kind := by
  cases node with
  | element name attrs children =>
      by_cases placeholder : name.kind = .placeholder
      · rw [fillIn_placeholder placeholder, kind_element, if_pos placeholder]
        exact spells.run
      · rw [fillIn_element placeholder, kind_element, kind_element, if_neg placeholder]
  | text | comment => simp [fillIn]

theorem isParagraph_fillIn (spells : SpellsWords spell) (node : Node) :
    (fillIn spell text node).isParagraph = node.isParagraph := by
  rw [isParagraph, isParagraph, kind_fillIn spells]
  by_cases placeholder : node.kind = .placeholder
  · rw [if_pos placeholder, placeholder]
    rfl
  · rw [if_neg placeholder]

/-- A text element holds its text, or nothing if there is no text. -/
theorem exists_runTextElement (spell : Term → QName) (text : String) :
    ∃ attrs content, runTextElement spell text = .element (spell Term.runText) attrs content ∧
      (content = [] ∧ text = "" ∨ content = [.text text]) := by
  by_cases empty : text = ""
  · exact ⟨_, [], by rw [runTextElement, if_pos empty], .inl ⟨rfl, empty⟩⟩
  · exact ⟨_, [.text text], by rw [runTextElement, if_neg empty], .inr rfl⟩

theorem holdsParagraph_runTextElement (spells : SpellsWords spell) :
    (runTextElement spell text).holdsParagraph = false := by
  obtain ⟨attrs, content, same, ⟨rfl, _⟩ | rfl⟩ := exists_runTextElement spell text
  · rw [same, holdsParagraph_element, spells.runText]
    rfl
  · rw [same, holdsParagraph_element, spells.runText]
    rfl

theorem holdsParagraph_fillIn (spells : SpellsWords spell) (node : Node) :
    (fillIn spell text node).holdsParagraph = node.holdsParagraph := by
  induction node using treeInduction with
  | element name attrs children ih =>
      by_cases placeholder : name.kind = .placeholder
      · rw [fillIn_placeholder placeholder, textRun, holdsParagraph_element, holdsParagraph_element,
          spells.run, placeholder, List.any_append, List.any_cons,
          holdsParagraph_runTextElement spells, List.any_nil, Bool.or_false, Bool.or_false]
        rfl
      · have below : children.any (holdsParagraph ∘ fillIn spell text) =
            children.any holdsParagraph := any_congr_of_mem ih
        rw [fillIn_element placeholder, holdsParagraph_element, holdsParagraph_element,
          List.any_map, below]
  | text | comment => rw [fillIn]

theorem isBlockLevel_fillIn (spells : SpellsWords spell) (node : Node) :
    (fillIn spell text node).isBlockLevel = node.isBlockLevel := by
  cases node with
  | element name attrs children =>
      by_cases placeholder : name.kind = .placeholder
      · rw [fillIn_placeholder placeholder, textRun, isBlockLevel, isBlockLevel, kind_element,
          kind_element, spells.run, placeholder]
      · have below : children.any (holdsParagraph ∘ fillIn spell text) =
            children.any holdsParagraph :=
          any_congr_of_mem fun child _ => holdsParagraph_fillIn spells child
        rw [fillIn_element placeholder, isBlockLevel_eq, isBlockLevel_eq, children_element,
          children_element, List.any_map, below]
        rfl
  | text | comment => rw [fillIn]

/-! ## Filling in before and after regrouping -/

theorem regroup_runTextElement :
    regroup (runTextElement spell text) = runTextElement spell text := by
  obtain ⟨attrs, content, same, ⟨rfl, _⟩ | rfl⟩ := exists_runTextElement spell text
  · rw [same, regroup_element]
    rfl
  · have inline : AllInline [.text text] := List.forall_mem_singleton.2 rfl
    rw [same, regroup_element, regroupAll_inline inline, List.map_singleton, regroup]

/-- Formatting is regrouped by itself, since the text of a run closes no group. -/
theorem regroup_textRun (spells : SpellsWords spell) (formatting : List Node) :
    regroup (textRun spell formatting text) = textRun spell (regroupAll formatting) text := by
  have inline : AllInline [runTextElement spell text] := by
    intro node member
    rw [List.mem_singleton.1 member, runTextElement, isBlockLevel, kind_element, spells.runText]
  rw [textRun, regroup_element, regroupAll_append_inline inline, List.map_singleton,
    regroup_runTextElement, textRun]

private theorem allInline_map_fillIn (spells : SpellsWords spell) {nodes : List Node}
    (inline : AllInline nodes) : AllInline (nodes.map (fillIn spell text)) := by
  refine List.forall_mem_map.2 fun node member => ?_
  rw [isBlockLevel_fillIn spells, inline node member]

private theorem map_regroup_map_fillIn {nodes : List Node}
    (each : ∀ node ∈ nodes, regroup (fillIn spell text node) = fillIn spell text (regroup node)) :
    (nodes.map (fillIn spell text)).map regroup = (nodes.map regroup).map (fillIn spell text) := by
  rw [List.map_map, List.map_map]
  exact List.map_congr_left each

private theorem regroupAll_map_fillIn (spells : SpellsWords spell) {nodes : List Node}
    (each : ∀ node ∈ nodes, regroup (fillIn spell text node) = fillIn spell text (regroup node)) :
    regroupAll (nodes.map (fillIn spell text)) = (regroupAll nodes).map (fillIn spell text) := by
  induction nodes using groupInduction with
  | inline nodes inline =>
      rw [regroupAll_inline inline, regroupAll_inline (allInline_map_fillIn spells inline),
        map_regroup_map_fillIn each]
  | mark left name attrs props rest inline kind ih =>
      simp only [List.forall_mem_append, List.forall_mem_cons] at each
      rcases each with ⟨leftEach, _, restEach⟩
      have other : name.kind ≠ .placeholder := by simp [kind]
      rw [regroupAll_paragraph inline kind, List.map_append, List.map_cons, fillIn_element other,
        regroupAll_paragraph (allInline_map_fillIn spells inline) kind, ih restEach,
        map_regroup_map_fillIn leftEach, List.map_cons, fillIn_element other, List.map_append]
  | block left last rest inline isBlock other ih =>
      simp only [List.forall_mem_append, List.forall_mem_cons] at each
      rcases each with ⟨leftEach, lastEach, restEach⟩
      rw [regroupAll_block inline isBlock other, List.map_append, List.map_cons,
        regroupAll_block (allInline_map_fillIn spells inline)
          (by rw [isBlockLevel_fillIn spells, isBlock]) (by rw [isParagraph_fillIn spells, other]),
        ih restEach, map_regroup_map_fillIn leftEach, lastEach, List.map_append, List.map_cons]

/-- It makes no difference whether placeholders are turned into runs before or after
regrouping. -/
theorem regroup_fillIn (spells : SpellsWords spell) (node : Node) :
    regroup (fillIn spell text node) = fillIn spell text (regroup node) := by
  induction node using treeInduction with
  | element name attrs children ih =>
      by_cases placeholder : name.kind = .placeholder
      · rw [fillIn_placeholder placeholder, regroup_textRun spells, regroup_element,
          fillIn_placeholder placeholder]
      · rw [fillIn_element placeholder, regroup_element, regroup_element,
          fillIn_element placeholder, regroupAll_map_fillIn spells ih]
  | text | comment => simp [fillIn, regroup]

/-! ## Labels -/

theorem label_resolveIn {outer : Kind} {node : Node} (other : node.kind ≠ .placeholder) :
    (resolveIn spell text outer node).label = node.label := by
  cases node with
  | element name attrs children =>
      rw [kind_element] at other
      rw [resolveIn, if_neg other]
      rfl
  | text | comment => rfl

theorem kind_resolveIn {outer : Kind} {node : Node} (other : node.kind ≠ .placeholder) :
    (resolveIn spell text outer node).kind = node.kind :=
  kind_eq_of_label_eq (label_resolveIn other)

@[simp] theorem label_wrapRunsIn (node : Node) : (wrapRunsIn spell node).label = node.label := by
  cases node <;> rfl

@[simp] theorem kind_wrapRunsIn (node : Node) : (wrapRunsIn spell node).kind = node.kind :=
  kind_eq_of_label_eq (label_wrapRunsIn node)

/-- The labels of all nodes that a substitution makes have a property. -/
structure AllowsNew (property : Label → Prop) (spell : Term → QName) (text : String) : Prop where
  paragraph : property (.element (spell Term.paragraph) [])
  run : property (.element (spell Term.run) [])
  runText : property (runTextElement spell text).label
  text : text ≠ "" → property (.text text)

variable {property : Label → Prop}

/-- A property of all labels whose kind a substitution makes. -/
theorem SpellsWords.allowsNew (spells : SpellsWords spell)
    (kinds : ∀ label : Label, label.kind = .paragraph ∨ label.kind = .run ∨
      label.kind = .runText ∨ label.kind = .charData → property label) :
    AllowsNew property spell text where
  paragraph := kinds _ (.inl spells.paragraph)
  run := kinds _ (.inr (.inl spells.run))
  runText := kinds _ (.inr (.inr (.inl spells.runText)))
  text _ := kinds _ (.inr (.inr (.inr rfl)))

theorem AllowsNew.mono {weaker : Label → Prop} (allows : AllowsNew property spell text)
    (implies : ∀ label, property label → weaker label) : AllowsNew weaker spell text where
  paragraph := implies _ allows.paragraph
  run := implies _ allows.run
  runText := implies _ allows.runText
  text filled := implies _ (allows.text filled)

theorem everyLabel_textRun (allows : AllowsNew property spell text) {formatting : List Node}
    (every : ∀ node ∈ formatting, EveryLabel property node) :
    EveryLabel property (textRun spell formatting text) := by
  rw [textRun]
  refine everyLabel_element.2 ⟨allows.run, List.forall_mem_append.2 ⟨every, ?_⟩⟩
  refine List.forall_mem_singleton.2 (everyLabel_element.2 ⟨allows.runText, ?_⟩)
  split
  · exact List.forall_mem_nil _
  · rename_i filled
    exact List.forall_mem_singleton.2 (everyLabel_text.2 (allows.text filled))

theorem everyLabel_wrapped (allows : property (.element (spell Term.paragraph) [])) {node : Node}
    (every : EveryLabel property node) :
    EveryLabel property (.element (spell Term.paragraph) [] [node]) :=
  everyLabel_element.2 ⟨allows, List.forall_mem_singleton.2 every⟩

/-- Resolving makes no labels but those of runs and of paragraphs around them. -/
theorem everyLabel_resolveIn (allows : AllowsNew property spell text) {node : Node}
    (every : EveryLabel property (fillIn spell text node)) (outer : Kind) :
    EveryLabel property (resolveIn spell text outer node) := by
  induction node using treeInduction generalizing outer with
  | element name attrs children ih =>
      by_cases placeholder : name.kind = .placeholder
      · rw [fillIn_placeholder placeholder] at every
        rw [resolveIn, if_pos placeholder]
        split
        · exact everyLabel_wrapped allows.paragraph every
        · exact every
      · rw [fillIn_element placeholder] at every
        rcases everyLabel_element.1 every with ⟨top, below⟩
        rw [resolveIn, if_neg placeholder, resolveAll_eq_map]
        refine everyLabel_element.2 ⟨top, List.forall_mem_map.2 fun child member => ?_⟩
        exact ih child member (below _ (List.mem_map_of_mem member)) name.kind
  | text | comment => exact every

theorem wrapRunsAll_eq_map (outer : Kind) (nodes : List Node) :
    wrapRunsAll spell outer nodes = nodes.map fun node =>
      if outer = .body ∧ node.kind = .run then
        .element (spell Term.paragraph) [] [wrapRunsIn spell node]
      else wrapRunsIn spell node := by
  induction nodes with
  | nil => rfl
  | cons node rest ih => rw [wrapRunsAll, ih, List.map_cons]

/-- Wrapping makes no labels but those of paragraphs. -/
theorem everyLabel_wrapRunsIn (allows : property (.element (spell Term.paragraph) []))
    {node : Node} (every : EveryLabel property node) :
    EveryLabel property (wrapRunsIn spell node) := by
  induction node using treeInduction with
  | element name attrs children ih =>
      rcases everyLabel_element.1 every with ⟨top, below⟩
      rw [wrapRunsIn, wrapRunsAll_eq_map]
      refine everyLabel_element.2 ⟨top, List.forall_mem_map.2 fun child member => ?_⟩
      have inner := ih child member (below child member)
      split
      · exact everyLabel_wrapped allows inner
      · exact inner
  | text | comment => exact every

/-! ## The last two passes -/

/-- What the last two passes make of a child of a node of kind `outer`. -/
def finish (spell : Term → QName) (text : String) (outer : Kind) (node : Node) : Node :=
  if outer = .body ∧ (resolveIn spell text outer node).kind = .run then
    .element (spell Term.paragraph) [] [wrapRunsIn spell (resolveIn spell text outer node)]
  else wrapRunsIn spell (resolveIn spell text outer node)

/-- Below a node that is no placeholder every child is finished by itself. -/
theorem wrapRunsIn_resolveIn_element {name : QName} (other : name.kind ≠ .placeholder)
    (outer : Kind) (attrs : List Attr) (children : List Node) :
    wrapRunsIn spell (resolveIn spell text outer (.element name attrs children)) =
      .element name attrs (children.map (finish spell text name.kind)) := by
  rw [resolveIn, if_neg other, wrapRunsIn, resolveAll_eq_map, wrapRunsAll_eq_map, List.map_map]
  rfl

theorem everyLabel_finish (allows : AllowsNew property spell text) {node : Node}
    (every : EveryLabel property (fillIn spell text node)) (outer : Kind) :
    EveryLabel property (finish spell text outer node) := by
  have wrapped := everyLabel_wrapRunsIn allows.paragraph (everyLabel_resolveIn allows every outer)
  rw [finish]
  split
  · exact everyLabel_wrapped allows.paragraph wrapped
  · exact wrapped

theorem everyLabel_finish_regroup (spells : SpellsWords spell)
    (allows : AllowsNew property spell text) {node : Node}
    (every : EveryLabel property (fillIn spell text node)) (outer : Kind) :
    EveryLabel property (finish spell text outer node.regroup) := by
  apply everyLabel_finish allows
  rw [← regroup_fillIn spells]
  exact everyLabel_regroup every

end FillIn

end Node

end TemplateFill
