import TemplateFill.Proofs.Bookmark.Filling

/-!
# Texts that stand alone

Where every text is the only child of its parent, which is no paragraph, each pass of a
substitution keeps it so: only nodes that have no text for a child are moved or merged.
-/

namespace TemplateFill

namespace Node

/-- No text has siblings, and none is the child of a paragraph or a placeholder. -/
inductive TextsAlone : Node → Prop where
  | element {name : QName} {attrs : List Attr} {children : List Node}
      (noText : ∀ child ∈ children, child.text? = none)
      (below : ∀ child ∈ children, TextsAlone child) :
      TextsAlone (.element name attrs children)
  | holding {name : QName} {attrs : List Attr} {content : String}
      (noParagraph : name.kind ≠ .paragraph) (noPlaceholder : name.kind ≠ .placeholder) :
      TextsAlone (.element name attrs [.text content])
  | text {content : String} : TextsAlone (.text content)
  | comment {content : String} : TextsAlone (.comment content)

/-- Siblings that are no texts, and the texts below them stand alone. -/
def NoTexts (nodes : List Node) : Prop := ∀ node ∈ nodes, node.text? = none ∧ TextsAlone node

section TextsAlone

variable {name : QName} {attrs : List Attr} {children : List Node}

theorem NoTexts.element (noTexts : NoTexts children) : TextsAlone (.element name attrs children) :=
  .element (fun child member => (noTexts child member).1) fun child member =>
    (noTexts child member).2

theorem noTexts_append {left right : List Node} :
    NoTexts (left ++ right) ↔ NoTexts left ∧ NoTexts right := List.forall_mem_append

theorem TextsAlone.child {node child : Node} (alone : TextsAlone node)
    (member : child ∈ node.children) : TextsAlone child := by
  cases alone with
  | element _ below => exact below child member
  | holding =>
      rw [children_element, List.mem_singleton] at member
      rw [member]
      exact .text
  | text | comment => cases member

theorem TextsAlone.of_mem {root inner : Node} (alone : TextsAlone root)
    (member : inner ∈ root.selfAndDescendants) : TextsAlone inner := by
  induction root using treeInduction with
  | element name attrs children ih =>
      rcases mem_selfAndDescendants_element.1 member with rfl | ⟨child, among, inside⟩
      · exact alone
      · exact ih child among (alone.child among) inside
  | text | comment =>
      rw [mem_selfAndDescendants_of_childless rfl] at member
      rw [member]
      exact alone

/-- Where one child is no text, none is. -/
theorem TextsAlone.noTexts (alone : TextsAlone (.element name attrs children))
    (other : ∃ child ∈ children, child.text? = none) : NoTexts children := by
  cases alone with
  | element noText below => exact fun child member => ⟨noText child member, below child member⟩
  | holding =>
      rcases other with ⟨child, member, noText⟩
      rw [List.mem_singleton] at member
      rw [member] at noText
      cases noText

/-- Paragraphs and placeholders have no texts for children. -/
theorem TextsAlone.noTexts_of_kind (alone : TextsAlone (.element name attrs children))
    (kinds : name.kind = .paragraph ∨ name.kind = .placeholder) : NoTexts children := by
  cases alone with
  | element noText below => exact fun child member => ⟨noText child member, below child member⟩
  | holding noParagraph noPlaceholder =>
      rcases kinds with paragraph | placeholder
      · exact absurd paragraph noParagraph
      · exact absurd placeholder noPlaceholder

end TextsAlone

/-- Every text is the only child of a node that is no paragraph. -/
def LoneTexts (root : Node) : Prop :=
  ∀ inner ∈ root.selfAndDescendants, ∀ child ∈ inner.children, child.text? ≠ none →
    inner.children = [child] ∧ inner.kind ≠ .paragraph

instance (root : Node) : Decidable (LoneTexts root) :=
  decidable_of_iff
    (∀ inner ∈ root.selfAndDescendants, ∀ child ∈ inner.children, child.text? ≠ none →
      inner.children.length = 1 ∧ inner.kind ≠ .paragraph) <| by
    constructor
    · intro each inner member child isChild isText
      rcases each inner member child isChild isText with ⟨alone, kind⟩
      rcases List.length_eq_one_iff.1 alone with ⟨only, same⟩
      rw [same, List.mem_singleton] at isChild
      rw [isChild]
      exact ⟨same, kind⟩
    · intro lone inner member child isChild isText
      rcases lone inner member child isChild isText with ⟨same, kind⟩
      rw [same]
      exact ⟨rfl, kind⟩

theorem LoneTexts.textsAlone {root : Node} (lone : LoneTexts root) (free : root.PlaceholderFree) :
    TextsAlone root := by
  induction root using treeInduction with
  | element name attrs children ih =>
      have below : ∀ child ∈ children, TextsAlone child := by
        intro child member
        refine ih child member (fun inner inside => lone inner ?_) (free.child member)
        exact mem_selfAndDescendants_element.2 (.inr ⟨child, member, inside⟩)
      by_cases noText : ∀ child ∈ children, child.text? = none
      · exact .element noText below
      · simp only [Classical.not_forall] at noText
        rcases noText with ⟨child, member, isText⟩
        rcases lone _ (self_mem_selfAndDescendants _) child member isText with ⟨only, kind⟩
        rw [children_element] at only
        rw [only]
        cases child with
        | text => exact .holding kind free.self
        | element | comment => exact absurd rfl isText
  | text => exact .text
  | comment => exact .comment

theorem text?_eq_none_of_kind {node : Node} (other : node.kind ≠ .charData) :
    node.text? = none := by
  cases node with
  | element => rfl
  | text | comment => exact absurd rfl other

/-! ## Flattening -/

private theorem noTexts_flattenNode {node : Node} (alone : TextsAlone node)
    (noText : node.text? = none) : NoTexts (flattenNode node) := by
  intro flat member
  revert alone noText
  refine flattenNode_induction ?content ?mark ?container ?leaf member
  case content =>
    intro name attrs children child flat paragraph among _ _ inner alone _
    cases alone with
    | element noTexts below => exact inner (below child among) (noTexts child among)
    | holding noParagraph => exact absurd paragraph noParagraph
  case mark =>
    intro name attrs children paragraph alone _
    cases alone with
    | element noTexts below =>
        refine ⟨rfl, .element ?_ ?_⟩
        · exact fun child among => noTexts child (List.mem_filter.1 among).1
        · exact fun child among => below child (List.mem_filter.1 among).1
    | holding noParagraph => exact absurd paragraph noParagraph
  case container =>
    intro name attrs children _ inner alone _
    cases alone with
    | element noTexts below =>
        refine ⟨rfl, NoTexts.element fun flat among => ?_⟩
        rcases mem_flattenAll.1 among with ⟨child, isChild, isFlat⟩
        exact inner child isChild flat isFlat (below child isChild) (noTexts child isChild)
    | holding noParagraph noPlaceholder => exact ⟨rfl, .holding noParagraph noPlaceholder⟩
  case leaf => exact fun _ alone noText => ⟨noText, alone⟩

theorem TextsAlone.flatten {root : Node} (alone : TextsAlone root) : TextsAlone root.flatten := by
  cases alone with
  | element noText below =>
      refine NoTexts.element ?_
      intro flat member
      rcases mem_flattenAll.1 member with ⟨child, among, isFlat⟩
      exact noTexts_flattenNode (below child among) (noText child among) flat isFlat
  | holding noParagraph noPlaceholder => exact .holding noParagraph noPlaceholder
  | text => exact .text
  | comment => exact .comment

/-! ## Replacing a node -/

section Reaches

variable {passes : List Node → Node → Prop} {root target node : Node} {path : Path}

theorem Reaches.textsAlone (reached : Reaches passes root path target)
    (alone : TextsAlone root) : TextsAlone target := by
  induction reached with
  | here => exact alone
  | down _ _ ih => exact ih (alone.child (by simp))

private theorem Reaches.text?_eq_none (reached : Reaches passes root path target)
    (noText : target.text? = none) : root.text? = none := by
  cases reached with
  | here => exact noText
  | down => rfl

theorem Reaches.textsAlone_replaceAt (reached : Reaches passes root path target)
    (alone : TextsAlone root) (keeps : node.label = target.label) (noText : node.text? = none)
    (fresh : TextsAlone node) : TextsAlone (root.replaceAt path node) := by
  induction reached with
  | here => exact fresh
  | @down name attrs left child right rest target _ inner ih =>
      have targetNoText : target.text? = none := by
        rw [text?, ← keeps]
        exact noText
      have childNoText := inner.text?_eq_none targetNoText
      have all := alone.noTexts ⟨child, by simp, childNoText⟩
      rw [NoTexts, List.forall_mem_append, List.forall_mem_cons] at all
      rw [replaceAt_down]
      apply NoTexts.element
      rw [NoTexts, List.forall_mem_append, List.forall_mem_cons]
      refine ⟨all.1, ⟨?_, ih all.2.1.2 keeps⟩, all.2.2⟩
      rw [text?, inner.label_replaceAt keeps]
      exact childNoText

end Reaches

/-! ## Regrouping -/

theorem TextsAlone.regroup {node : Node} (alone : TextsAlone node) : TextsAlone node.regroup := by
  induction node using treeInduction with
  | element name attrs children ih =>
      rw [regroup_element]
      cases alone with
      | element noText below =>
          have images : ∀ child ∈ children, child.regroup.text? = none ∧
              TextsAlone child.regroup := by
            intro child member
            rw [text?, label_regroup]
            exact ⟨noText child member, ih child member (below child member)⟩
          apply NoTexts.element
          intro result member
          cases regroupedFrom_of_mem member with
          | image among _ => exact images _ among
          | paragraph mark kind taken _ =>
              have props := (below _ mark).noTexts_of_kind (.inl kind)
              refine ⟨rfl, (noTexts_append.2 ⟨props, ?_⟩).element⟩
              exact List.forall_mem_map.2 fun inner among => images inner (taken inner among)
      | @holding _ _ content noParagraph noPlaceholder =>
          have inline : AllInline [.text content] := List.forall_mem_singleton.2 rfl
          rw [regroupAll_inline inline]
          exact .holding noParagraph noPlaceholder
  | text => exact .text
  | comment => exact .comment

/-! ## The last two passes -/

section New

variable {spell : Term → QName} {text : String}

private theorem textsAlone_runTextElement (spells : SpellsWords spell) :
    TextsAlone (runTextElement spell text) := by
  have noParagraph : (spell Term.runText).kind ≠ .paragraph := by
    rw [spells.runText]
    decide
  have noPlaceholder : (spell Term.runText).kind ≠ .placeholder := by
    rw [spells.runText]
    decide
  rcases exists_runTextElement spell text with ⟨attrs, content, same, ⟨rfl, _⟩ | rfl⟩
  · rw [same]
    exact NoTexts.element (List.forall_mem_nil _)
  · rw [same]
    exact .holding noParagraph noPlaceholder

theorem textsAlone_textRun (spells : SpellsWords spell) {formatting : List Node}
    (noTexts : NoTexts formatting) : TextsAlone (textRun spell formatting text) :=
  (noTexts_append.2 ⟨noTexts, List.forall_mem_singleton.2
    ⟨rfl, textsAlone_runTextElement spells⟩⟩).element

private theorem text?_resolveIn {node : Node} (noText : node.text? = none) (outer : Kind) :
    (resolveIn spell text outer node).text? = none := by
  cases node with
  | element name attrs children =>
      rw [resolveIn]
      split
      · split <;> rfl
      · rfl
  | text => cases noText
  | comment => rfl

theorem TextsAlone.resolveIn (spells : SpellsWords spell) {node : Node} (alone : TextsAlone node)
    (outer : Kind) : TextsAlone (resolveIn spell text outer node) := by
  induction node using treeInduction generalizing outer with
  | element name attrs children ih =>
      by_cases placeholder : name.kind = .placeholder
      · have run : TextsAlone (textRun spell children text) :=
          textsAlone_textRun spells (alone.noTexts_of_kind (.inr placeholder))
        rw [Node.resolveIn, if_pos placeholder]
        split
        · exact NoTexts.element (List.forall_mem_singleton.2 ⟨rfl, run⟩)
        · exact run
      · rw [Node.resolveIn, if_neg placeholder, resolveAll_eq_map]
        cases alone with
        | element noText below =>
            refine NoTexts.element (List.forall_mem_map.2 fun child member => ?_)
            exact ⟨text?_resolveIn (noText child member) _,
              ih child member (below child member) _⟩
        | holding noParagraph noPlaceholder => exact .holding noParagraph noPlaceholder
  | text => exact .text
  | comment => exact .comment

theorem TextsAlone.wrapRunsIn {node : Node} (alone : TextsAlone node) :
    TextsAlone (wrapRunsIn spell node) := by
  induction node using treeInduction with
  | element name attrs children ih =>
      rw [Node.wrapRunsIn, wrapRunsAll_eq_map]
      cases alone with
      | element noText below =>
          refine NoTexts.element (List.forall_mem_map.2 fun child member => ?_)
          have wrapped : (Node.wrapRunsIn spell child).text? = none ∧
              TextsAlone (Node.wrapRunsIn spell child) := by
            rw [text?, label_wrapRunsIn]
            exact ⟨noText child member, ih child member (below child member)⟩
          split
          · exact ⟨rfl, NoTexts.element (List.forall_mem_singleton.2 wrapped)⟩
          · exact wrapped
      | @holding _ _ content noParagraph noPlaceholder =>
          have noRun : ¬ (name.kind = .body ∧ (Node.text content).kind = .run) := by
            rintro ⟨_, run⟩
            cases run
          rw [List.map_singleton, if_neg noRun]
          exact .holding noParagraph noPlaceholder
  | text => exact .text
  | comment => exact .comment

end New

end Node

namespace Bookmark

open Node

section Fills

variable {root filled : Node} {bookmark text : String} {site : Site} {path : Path}

private theorem noTexts_formatting {range : List Node} (noTexts : NoTexts range) :
    NoTexts (firstFormatting? range).toList := by
  intro formatting member
  rcases mem_of_firstFormatting (Option.mem_toList.1 member) with ⟨kind, run, among, _, isChild⟩
  refine ⟨text?_eq_none_of_kind (by rw [kind]; decide), ?_⟩
  exact (noTexts run among).2.child isChild

private theorem Site.textsAlone_withPlaceholder (starts : site.start.kind = .bookmarkStart)
    (alone : TextsAlone (site.holding site.inside)) : TextsAlone site.withPlaceholder := by
  have other : ∃ child ∈ site.siblings site.inside, child.text? = none :=
    ⟨site.start, by simp [Site.siblings], text?_eq_none_of_kind (by rw [starts]; decide)⟩
  rcases Site.forall_mem_siblings.1 (alone.noTexts other) with ⟨left, start, inside, stop, right⟩
  apply NoTexts.element
  refine Site.forall_mem_siblings.2 ⟨left, start, ?_, stop, right⟩
  refine List.forall_mem_cons.2 ⟨⟨rfl, (noTexts_formatting inside).element⟩, ?_⟩
  exact fun node member => inside node (List.mem_filter.1 member).1

/-- A substitution leaves texts alone. -/
theorem Fills.textsAlone (fills : Fills root bookmark text filled site path)
    (alone : TextsAlone root) : TextsAlone filled := by
  have reached := fills.marks.reached
  have holding := reached.textsAlone alone.flatten
  have placed : TextsAlone (root.flatten.replaceAt path site.withPlaceholder) :=
    reached.textsAlone_replaceAt alone.flatten rfl rfl
      (Site.textsAlone_withPlaceholder fills.marks.start_kind holding)
  rw [fills.result]
  exact (placed.regroup.resolveIn (spellsWords_spell root) .generic).wrapRunsIn

end Fills

end Bookmark

end TemplateFill
