import TemplateFill.Proofs.Bookmark.Filling

/-!
# What a substitution keeps

Without paragraph properties and without the boundaries of paragraphs, a document keeps all its
nodes when it is regrouped, when placeholders are resolved and when runs are wrapped.  So a
substitution changes nothing outside the bookmark but paragraph boundaries.
-/

namespace TemplateFill

namespace Node

mutual

/-- What is left of a node without paragraph properties and paragraph boundaries. -/
def eraseNode : Node → List Node
  | .element name attrs children =>
      if name.kind = .paragraphProps then []
      else if name.kind = .paragraph then eraseAll children
      else [.element name attrs (eraseAll children)]
  | .text content => [.text content]
  | .comment content => [.comment content]

/-- What is left of siblings. -/
def eraseAll : List Node → List Node
  | [] => []
  | node :: rest => eraseNode node ++ eraseAll rest

end

/-- A document without paragraph properties, and with the content of every paragraph below the
root in the place of the paragraph. -/
def erase (root : Node) : Node := root.mapChildren eraseAll

@[simp] theorem eraseAll_append (left right : List Node) :
    eraseAll (left ++ right) = eraseAll left ++ eraseAll right := by
  induction left with
  | nil => rfl
  | cons node rest ih => rw [List.cons_append, eraseAll, eraseAll, ih, List.append_assoc]

theorem eraseAll_singleton (node : Node) : eraseAll [node] = eraseNode node := by
  rw [eraseAll, eraseAll, List.append_nil]

theorem eraseAll_map_congr {left right : Node → Node} {nodes : List Node}
    (each : ∀ node ∈ nodes, eraseNode (left node) = eraseNode (right node)) :
    eraseAll (nodes.map left) = eraseAll (nodes.map right) := by
  induction nodes with
  | nil => rfl
  | cons node rest ih =>
      rw [List.forall_mem_cons] at each
      rw [List.map_cons, List.map_cons, eraseAll, eraseAll, each.1, ih each.2]

theorem eraseNode_of_props {node : Node} (isProps : node.isParagraphProps = true) :
    eraseNode node = [] := by
  cases node with
  | element name attrs children =>
      rw [eraseNode, if_pos (by simpa [isParagraphProps] using isProps)]
  | text | comment => simp [isParagraphProps] at isProps

theorem eraseNode_paragraph {name : QName} (paragraph : name.kind = .paragraph)
    (attrs : List Attr) (children : List Node) :
    eraseNode (.element name attrs children) = eraseAll children := by
  rw [eraseNode, if_neg (by simp [paragraph]), if_pos paragraph]

/-- Two elements with one label are left with the same when their children are. -/
theorem eraseNode_congr {name : QName} {attrs : List Attr} {left right : List Node}
    (below : eraseAll left = eraseAll right) :
    eraseNode (.element name attrs left) = eraseNode (.element name attrs right) := by
  rw [eraseNode, eraseNode, below]

theorem eraseAll_props {nodes : List Node}
    (allProps : ∀ node ∈ nodes, node.isParagraphProps = true) : eraseAll nodes = [] := by
  induction nodes with
  | nil => rfl
  | cons node rest ih =>
      rw [List.forall_mem_cons] at allProps
      rw [eraseAll, eraseNode_of_props allProps.1, ih allProps.2, List.append_nil]

/-! ## Passes that keep the rest -/

private theorem eraseAll_map_regroup {nodes : List Node} (inline : AllInline nodes)
    (each : ∀ node ∈ nodes, node.isParagraph = false → eraseNode (regroup node) = eraseNode node) :
    eraseAll (nodes.map regroup) = eraseAll nodes := by
  rw [← List.map_id nodes, List.map_map]
  apply eraseAll_map_congr
  intro node member
  exact each node member (not_isParagraph_of_inline (inline node member))

private theorem eraseAll_regroupAll_of_each {nodes : List Node}
    (flat : ∀ node ∈ nodes, FlatSibling True node)
    (each : ∀ node ∈ nodes, node.isParagraph = false → eraseNode (regroup node) = eraseNode node) :
    eraseAll (regroupAll nodes) = eraseAll nodes := by
  induction nodes using groupInduction with
  | inline nodes inline => rw [regroupAll_inline inline, eraseAll_map_regroup inline each]
  | mark left name attrs props rest inline kind ih =>
      simp only [List.forall_mem_append, List.forall_mem_cons] at flat each
      rcases flat with ⟨_, markFlat, restFlat⟩
      rcases each with ⟨leftEach, _, restEach⟩
      -- The mark stands behind its content, the paragraph has its properties in front of it.
      have noProps : eraseAll props = [] := eraseAll_props (markFlat.props_of_mark kind)
      rw [regroupAll_paragraph inline kind, eraseAll, eraseNode_paragraph kind, eraseAll_append,
        eraseAll_map_regroup inline leftEach, eraseAll_append, eraseAll, eraseNode_paragraph kind,
        noProps, ih restFlat restEach, List.nil_append, List.nil_append]
  | block left last rest inline isBlock other ih =>
      simp only [List.forall_mem_append, List.forall_mem_cons] at flat each
      rcases flat with ⟨_, _, restFlat⟩
      rcases each with ⟨leftEach, lastEach, restEach⟩
      rw [regroupAll_block inline isBlock other, eraseAll_append, eraseAll,
        eraseAll_map_regroup inline leftEach, lastEach other, ih restFlat restEach, eraseAll_append,
        eraseAll]

private theorem eraseNode_regroup {node : Node} (flat : FlatSibling True node)
    (other : node.isParagraph = false) : eraseNode (regroup node) = eraseNode node := by
  induction node using treeInduction with
  | element name attrs children ih =>
      rw [regroup_element]
      cases flat with
      | mark kind _ => simp [isParagraph, kind] at other
      | container _ _ every =>
          apply eraseNode_congr
          apply eraseAll_regroupAll_of_each every
          exact fun child member => ih child member (every child member)
      | props _ isProps =>
          have image : (element name attrs (regroupAll children)).isParagraphProps = true := isProps
          rw [eraseNode_of_props isProps, eraseNode_of_props image]
  | text | comment => rw [regroup]

/-- Regrouping keeps all but the boundaries of paragraphs, whatever the groups look like. -/
theorem eraseAll_regroupAll {nodes : List Node} (flat : ∀ node ∈ nodes, FlatSibling True node) :
    eraseAll (regroupAll nodes) = eraseAll nodes :=
  eraseAll_regroupAll_of_each flat fun node member => eraseNode_regroup (flat node member)

theorem erase_regroup {root : Node} (flat : ∀ node ∈ root.children, FlatSibling True node) :
    root.regroup.erase = root.erase := by
  cases root with
  | element name attrs children =>
      rw [children_element] at flat
      rw [regroup_element, erase, erase, mapChildren, mapChildren, eraseAll_regroupAll flat]
  | text | comment => rfl

section Passes

variable {spell : Term → QName} {text : String}

/-- A paragraph around a run leaves the run. -/
theorem eraseNode_wrapped (spells : SpellsWords spell) (node : Node) :
    eraseNode (.element (spell Term.paragraph) [] [node]) = eraseNode node := by
  rw [eraseNode_paragraph spells.paragraph, eraseAll_singleton]

private theorem eraseNode_resolveIn (spells : SpellsWords spell) (outer : Kind) (node : Node) :
    eraseNode (resolveIn spell text outer node) = eraseNode (fillIn spell text node) := by
  induction node using treeInduction generalizing outer with
  | element name attrs children ih =>
      by_cases placeholder : name.kind = .placeholder
      · rw [resolveIn, if_pos placeholder, fillIn_placeholder placeholder]
        split
        · exact eraseNode_wrapped spells _
        · rfl
      · rw [resolveIn, if_neg placeholder, fillIn_element placeholder, resolveAll_eq_map]
        apply eraseNode_congr
        apply eraseAll_map_congr
        exact fun child member => ih child member name.kind
  | text | comment => rfl

/-- Resolved placeholders are runs, but for paragraphs around them. -/
theorem erase_resolveIn (spells : SpellsWords spell) (outer : Kind) {root : Node}
    (other : root.kind ≠ .placeholder) :
    (resolveIn spell text outer root).erase = (fillIn spell text root).erase := by
  cases root with
  | element name attrs children =>
      rw [kind_element] at other
      rw [resolveIn, if_neg other, fillIn_element other, resolveAll_eq_map, erase, erase,
        mapChildren, mapChildren,
        eraseAll_map_congr fun child _ => eraseNode_resolveIn spells name.kind child]
  | text | comment => rfl

private theorem eraseAll_wrapRunsAll (spells : SpellsWords spell) (outer : Kind)
    {nodes : List Node}
    (each : ∀ node ∈ nodes, eraseNode (wrapRunsIn spell node) = eraseNode node) :
    eraseAll (wrapRunsAll spell outer nodes) = eraseAll nodes := by
  induction nodes with
  | nil => rfl
  | cons node rest ih =>
      rw [List.forall_mem_cons] at each
      rw [wrapRunsAll, eraseAll, eraseAll, ih each.2, ← each.1]
      split
      · rw [eraseNode_wrapped spells]
      · rfl

private theorem eraseNode_wrapRunsIn (spells : SpellsWords spell) (node : Node) :
    eraseNode (wrapRunsIn spell node) = eraseNode node := by
  induction node using treeInduction with
  | element name attrs children ih =>
      rw [wrapRunsIn]
      exact eraseNode_congr (eraseAll_wrapRunsAll spells name.kind ih)
  | text | comment => rfl

/-- Wrapping runs only adds paragraphs around them. -/
theorem erase_wrapRunsIn (spells : SpellsWords spell) (root : Node) :
    (wrapRunsIn spell root).erase = root.erase := by
  cases root with
  | element name attrs children =>
      rw [wrapRunsIn, erase, erase, mapChildren, mapChildren,
        eraseAll_wrapRunsAll spells name.kind fun child _ => eraseNode_wrapRunsIn spells child]
  | text | comment => rfl

end Passes

end Node

namespace Bookmark

open Node

/-- A substitution that succeeds leaves the document as it would be with the run in the place of
what is between the located markers, but for paragraph properties and the boundaries of
paragraphs, and it leaves no placeholder behind.  Nothing is below the texts and comments of the
document, which is a `Node`. -/
theorem erase_of_substitute {root filled : Node} {revised : Bool} {bookmark text : String}
    (free : root.PlaceholderFree) (success : substitute root revised bookmark text = .ok filled) :
    ∃ pair run, locate root.flatten bookmark = .ok pair ∧
      IsRunOf root.spell (firstFormatting? (root.flatten.rangeOf pair)).toList text run ∧
      filled.erase = (root.flatten.splice pair run).erase ∧
      ∀ inner ∈ filled.selfAndDescendants, inner.kind ≠ .placeholder := by
  obtain ⟨site, path, fills⟩ := exists_fills free success
  have spells := spellsWords_spell root
  have flatFree := everyLabel_flatten free
  have flat : ∀ node ∈ (root.flatten.replaceAt path (site.withRun root.spell text)).children,
      FlatSibling True node :=
    fills.marks.flatSibling_withRun spells fun node member => flatSibling_of_mem_flatten member
  have other : (root.flatten.replaceAt path site.withPlaceholder).regroup.kind ≠ .placeholder := by
    rw [kind_regroup, Site.withPlaceholder,
      kind_eq_of_label_eq (fills.marks.label_replaceAt _), kind_flatten]
    exact free.self
  refine ⟨site.pair path, _, fills.located, isRunOf_textRun root _ text, ?_, ?_⟩
  · calc filled.erase
      _ = (root.flatten.replaceAt path (site.withRun root.spell text)).regroup.erase := by
          rw [fills.result, erase_wrapRunsIn spells, erase_resolveIn spells _ other,
            ← regroup_fillIn spells, fills.marks.fillIn_eq flatFree]
      _ = (root.flatten.replaceAt path (site.withRun root.spell text)).erase := erase_regroup flat
      _ = _ := by rw [fills.marks.splice_eq]
  · apply fills.everyLabel free (spells.allowsNew fun label made placeholder => ?_) free
    rw [placeholder] at made
    simp at made

theorem erase_sampleFilled :
    substitute sample false "b" "new" = .ok sampleFilled ∧
      ∃ pair run, locate sample.flatten "b" = .ok pair ∧
        IsRunOf sample.spell (firstFormatting? (sample.flatten.rangeOf pair)).toList "new" run ∧
        sampleFilled.erase = (sample.flatten.splice pair run).erase ∧
        ∀ inner ∈ sampleFilled.selfAndDescendants, inner.kind ≠ .placeholder := by
  have free : sample.PlaceholderFree :=
    show ∀ inner ∈ sample.selfAndDescendants, inner.label.kind ≠ .placeholder by decide
  have success : substitute sample false "b" "new" = .ok sampleFilled := rfl
  exact ⟨success, erase_of_substitute free success⟩

end Bookmark

end TemplateFill
