import Mathlib.Data.List.Chain
import TemplateFill.Markup.Reader
import TemplateFill.Proofs.Markup.Tree

/-!
# What reading makes of texts

Writing shows where elements and comments begin and end, but not where texts do.  So when a
written document is read, texts that stand side by side become one, empty texts get lost, and so
do texts of blanks among elements.  Nothing else changes, and a second time nothing at all.
-/

namespace TemplateFill

open Markup

/-- Reading keeps the texts among siblings apart and drops none of them. -/
structure TextsKept (siblings : List Node) : Prop where
  notEmpty : ∀ node ∈ siblings, node.text? ≠ some ""
  apart : siblings.IsChain fun before next => before.text? = none ∨ next.text? = none
  notIndentation : siblings.any Node.isElement = true →
    ∀ node ∈ siblings, Frame.isBlankTextNode node = false

instance (siblings : List Node) : Decidable (TextsKept siblings) :=
  decidable_of_iff
    ((∀ node ∈ siblings, node.text? ≠ some "") ∧
      (siblings.IsChain fun before next => before.text? = none ∨ next.text? = none) ∧
      (siblings.any Node.isElement = true → ∀ node ∈ siblings,
        Frame.isBlankTextNode node = false))
    ⟨fun all => ⟨all.1, all.2.1, all.2.2⟩,
      fun kept => ⟨kept.notEmpty, kept.apart, kept.notIndentation⟩⟩

/-- Reading keeps all texts of a tree. -/
def KeepsTexts (root : Node) : Prop :=
  ∀ inner ∈ root.selfAndDescendants, TextsKept inner.children

instance : DecidablePred KeepsTexts := fun root =>
  inferInstanceAs (Decidable (∀ inner ∈ root.selfAndDescendants, TextsKept inner.children))

namespace Node

/-- Put a text behind siblings, the last one first; it continues a text that stands last. -/
def putText (done : List Node) (content : String) : List Node :=
  match done with
  | .text before :: others => .text (before ++ content) :: others
  | _ => .text content :: done

/-- Put a sibling behind others, the last one first; an empty text is nothing. -/
def putBehind (done : List Node) : Node → List Node
  | .text content => if content = "" then done else putText done content
  | node => node :: done

mutual

/-- What reading makes of a node that has been written. -/
def reread : Node → Node
  | .element name attrs children =>
      .element name attrs (Frame.dropIndentation (rereadAll [] children).reverse)
  | node => node

/-- What reading makes of siblings behind others, the last one first. -/
def rereadAll (done : List Node) : List Node → List Node
  | [] => done
  | node :: rest => rereadAll (putBehind done (reread node)) rest

end

@[simp] theorem label_reread (node : Node) : node.reread.label = node.label := by
  cases node <;> rfl

theorem reread_element (name : QName) (attrs : List Attr) (children : List Node) :
    (element name attrs children).reread =
      .element name attrs (Frame.dropIndentation (rereadAll [] children).reverse) := rfl

theorem name?_reread (node : Node) : node.reread.name? = node.name? :=
  congrArg Label.name? (label_reread node)

theorem attrs_reread (node : Node) : node.reread.attrs = node.attrs :=
  congrArg Label.attrs (label_reread node)

theorem isElement_reread (node : Node) : node.reread.isElement = node.isElement :=
  congrArg Option.isSome (name?_reread node)

/-! ## Members -/

theorem filter_putBehind (done : List Node) (node : Node) :
    (putBehind done node).filter isElement = [node].filter isElement ++ done.filter isElement := by
  cases node with
  | text content =>
      rw [putBehind]
      split
      · rfl
      · rw [putText.eq_def]
        split <;> rfl
  | element | comment => rfl

private theorem filter_rereadAll (done nodes : List Node) :
    (rereadAll done nodes).filter isElement =
      ((nodes.filter isElement).map reread).reverse ++ done.filter isElement := by
  induction nodes generalizing done with
  | nil => rfl
  | cons node rest ih =>
      rw [rereadAll, ih, filter_putBehind, List.filter_singleton, isElement_reread]
      cases element : node.isElement with
      | true => simp [element]
      | false => simp [element]

/-- The elements among the children of a node stay, with what reading makes of them. -/
theorem filter_children_reread (node : Node) :
    node.reread.children.filter isElement = (node.children.filter isElement).map reread := by
  cases node with
  | element name attrs children =>
      have kept : (Frame.dropIndentation (rereadAll [] children).reverse).filter isElement =
          (rereadAll [] children).reverse.filter isElement := by
        rw [Frame.dropIndentation]
        split
        · rw [List.filter_filter]
          apply List.filter_congr
          intro child _
          cases child <;> rfl
        · rfl
      rw [reread_element, children_element, children_element, kept, List.filter_reverse,
        filter_rereadAll]
      simp
  | text | comment => rfl

/-- What can be read off the labels of elements below the root stays. -/
theorem filterMap_children_reread {result : Type} {read : Node → Option result}
    (ofLabel : ∀ node, read node.reread = read node)
    (ofElement : ∀ node, node.isElement = false → read node = none) (root : Node) :
    root.reread.children.filterMap read = root.children.filterMap read := by
  have elements : ∀ nodes : List Node,
      nodes.filterMap read = (nodes.filter isElement).filterMap read := by
    intro nodes
    rw [List.filterMap_filter]
    apply List.filterMap_congr
    intro node _
    split
    · rfl
    · rename_i other
      exact ofElement node (Bool.eq_false_iff.2 other)
  have same : read ∘ reread = read := funext ofLabel
  rw [elements, filter_children_reread, List.filterMap_map, same, ← elements]

/-- The elements of a tree are its root and the elements of its children. -/
theorem filter_selfAndDescendants_element (name : QName) (attrs : List Attr)
    (children : List Node) :
    (element name attrs children).selfAndDescendants.filter isElement =
      element name attrs children ::
        (children.filter isElement).flatMap fun child =>
          child.selfAndDescendants.filter isElement := by
  have below : ∀ nodes : List Node, (descendantsOfAll nodes).filter isElement =
      (nodes.filter isElement).flatMap fun child =>
        child.selfAndDescendants.filter isElement := by
    intro nodes
    induction nodes with
    | nil => rfl
    | cons node rest ih =>
        have split : descendantsOfAll (node :: rest) =
            node.selfAndDescendants ++ descendantsOfAll rest := rfl
        rw [split, List.filter_append, ih]
        cases node with
        | element => rfl
        | text | comment => rfl
  have split : (element name attrs children).selfAndDescendants =
      element name attrs children :: descendantsOfAll children := rfl
  rw [split, List.filter_cons_of_pos rfl, below]

/-- The elements of a tree without what is below them, in document order. -/
def elements (node : Node) : List Label := (node.selfAndDescendants.filter isElement).map label

theorem elements_element (name : QName) (attrs : List Attr) (children : List Node) :
    (element name attrs children).elements =
      .element name attrs :: (children.filter isElement).flatMap elements := by
  rw [elements, filter_selfAndDescendants_element, List.map_cons, List.map_flatMap]
  rfl

/-- Reading keeps the elements. -/
theorem elements_reread (node : Node) : node.reread.elements = node.elements := by
  induction node using treeInduction with
  | element name attrs children ih =>
      have kept := filter_children_reread (element name attrs children)
      rw [reread_element, children_element, children_element] at kept
      rw [reread_element, elements_element, elements_element, kept, List.flatMap_map]
      refine congrArg _ (List.flatMap_congr fun child member => ?_)
      exact ih child (List.mem_filter.1 member).1
  | text | comment => rfl

private theorem mem_putBehind {done : List Node} {node inner : Node}
    (member : inner ∈ putBehind done node) :
    (∃ content, inner = .text content) ∨ inner = node ∨ inner ∈ done := by
  cases node with
  | text content =>
      rw [putBehind] at member
      split at member
      · exact .inr (.inr member)
      · rw [putText.eq_def] at member
        split at member
        · rcases List.mem_cons.1 member with rfl | among
          · exact .inl ⟨_, rfl⟩
          · exact .inr (.inr (List.mem_cons_of_mem _ among))
        · rcases List.mem_cons.1 member with rfl | among
          · exact .inl ⟨_, rfl⟩
          · exact .inr (.inr among)
  | element | comment => exact .inr (List.mem_cons.1 member)

private theorem mem_rereadAll {done nodes : List Node} {inner : Node}
    (member : inner ∈ rereadAll done nodes) :
    (∃ content, inner = .text content) ∨ inner ∈ done ∨ ∃ node ∈ nodes, inner = node.reread := by
  induction nodes generalizing done with
  | nil => exact .inr (.inl member)
  | cons node rest ih =>
      rw [rereadAll] at member
      rcases ih member with isText | among | ⟨source, isSource, same⟩
      · exact .inl isText
      · rcases mem_putBehind among with isText | same | earlier
        · exact .inl isText
        · exact .inr (.inr ⟨node, List.mem_cons_self, same⟩)
        · exact .inr (.inl earlier)
      · exact .inr (.inr ⟨source, List.mem_cons_of_mem _ isSource, same⟩)

/-- A child is a text, or what reading has made of a child. -/
theorem mem_children_reread {node child : Node} (member : child ∈ node.reread.children) :
    (∃ content, child = .text content) ∨ ∃ source ∈ node.children, child = source.reread := by
  cases node with
  | element name attrs children =>
      have among : child ∈ (rereadAll [] children).reverse := by
        rw [reread_element, children_element, Frame.dropIndentation] at member
        split at member
        · exact (List.mem_filter.1 member).1
        · exact member
      rcases mem_rereadAll (List.mem_reverse.1 among) with isText | none | source
      · exact .inl isText
      · cases none
      · exact .inr source
  | text | comment => cases member

/-- What holds of all labels stays, if it holds of texts. -/
theorem EveryLabel.reread {property : Label → Prop} {node : Node}
    (every : EveryLabel property node) (texts : ∀ content, property (.text content)) :
    EveryLabel property node.reread := by
  induction node using treeInduction with
  | element name attrs children ih =>
      rcases everyLabel_element.1 every with ⟨top, below⟩
      rw [reread_element]
      refine everyLabel_element.2 ⟨top, ?_⟩
      intro child member
      have isChild : child ∈ (element name attrs children).reread.children := member
      rcases mem_children_reread isChild with ⟨content, rfl⟩ | ⟨source, among, rfl⟩
      · exact everyLabel_text.2 (texts content)
      · exact ih source among (below source among)
  | text | comment => exact every

/-! ## Texts that are kept -/

/-- Whether a node is an empty text. -/
def isEmptyText (node : Node) : Bool := node.text? == some ""

theorem isEmptyText_eq_false {node : Node} : node.isEmptyText = false ↔ node.text? ≠ some "" :=
  beq_eq_false_iff_ne

/-- Texts that stand apart are not joined, but empty ones get lost. -/
theorem rereadAll_of_apart {done nodes : List Node}
    (apart : nodes.IsChain fun before next => before.text? = none ∨ next.text? = none)
    (fits : ∀ last ∈ done.head?, ∀ first ∈ nodes.head?, last.text? = none ∨ first.text? = none) :
    rereadAll done nodes = ((nodes.filter (!isEmptyText ·)).map reread).reverse ++ done := by
  induction nodes generalizing done with
  | nil => rfl
  | cons node rest ih =>
      rw [List.isChain_cons] at apart
      cases empty : node.isEmptyText with
      | true =>
          have isText : node.text? = some "" := beq_iff_eq.1 empty
          have put : putBehind done node.reread = done := by
            cases node with
            | text content =>
                cases isText
                rfl
            | element | comment => cases isText
          -- What comes next is no text, so it fits behind what has been before.
          have fitsRest : ∀ last ∈ done.head?, ∀ first ∈ rest.head?,
              last.text? = none ∨ first.text? = none := by
            intro _ _ first isFirst
            right
            refine (apart.1 first isFirst).resolve_left ?_
            rw [isText]
            nofun
          rw [rereadAll, put, ih apart.2 fitsRest, List.filter_cons_of_neg (by simp [empty])]
      | false =>
          have put : putBehind done node.reread = node.reread :: done := by
            cases node with
            | text content =>
                have filled : content ≠ "" :=
                  fun none => isEmptyText_eq_false.1 empty (congrArg some none)
                rw [reread.eq_def, putBehind, if_neg filled, putText.eq_def]
                split
                · rename_i before others
                  rcases fits _ rfl _ rfl with none | none <;> cases none
                · rfl
            | element | comment => rfl
          have fitsRest : ∀ last ∈ (node.reread :: done).head?, ∀ first ∈ rest.head?,
              last.text? = none ∨ first.text? = none := by
            rintro last ⟨⟩ first isFirst
            rw [text?, label_reread]
            exact apart.1 first isFirst
          rw [rereadAll, put, ih apart.2 fitsRest, List.filter_cons_of_pos (by simp [empty]),
            List.map_cons, List.reverse_cons, List.append_assoc, List.singleton_append]

/-- Reading keeps a document in which it keeps all texts. -/
theorem reread_eq_self {node : Node} (kept : KeepsTexts node) : node.reread = node := by
  induction node using treeInduction with
  | element name attrs children ih =>
      have top : TextsKept children := kept _ (self_mem_selfAndDescendants _)
      have each : children.map reread = children := by
        refine (List.map_congr_left fun child member => ?_).trans (List.map_id children)
        exact ih child member fun inner below =>
          kept inner (mem_selfAndDescendants_element.2 (.inr ⟨child, member, below⟩))
      have noneEmpty : children.filter (!isEmptyText ·) = children := by
        rw [List.filter_eq_self]
        intro child member
        rw [isEmptyText_eq_false.2 (top.notEmpty child member), Bool.not_false]
      have all : Frame.dropIndentation children = children := by
        rw [Frame.dropIndentation]
        split
        · rename_i elements
          rw [List.filter_eq_self]
          intro child member
          rw [top.notIndentation elements child member, Bool.not_false]
        · rfl
      have noFront : ∀ last ∈ ([] : List Node).head?, ∀ first ∈ children.head?,
          last.text? = none ∨ first.text? = none := by
        intro last none
        cases none
      rw [reread_element, rereadAll_of_apart top.apart noFront, noneEmpty, List.append_nil,
        List.reverse_reverse, each, all]
  | text | comment => rfl

/-- Siblings, the last one first, whose texts stand apart; where `filled` holds, none is empty. -/
structure Apart (filled : Prop) (done : List Node) : Prop where
  notEmpty : filled → ∀ node ∈ done, node.text? ≠ some ""
  apart : done.IsChain fun next before => before.text? = none ∨ next.text? = none

section Apart

variable {filled : Prop} {done : List Node}

theorem Apart.nil : Apart filled [] := ⟨fun _ => List.forall_mem_nil _, .nil⟩

theorem Apart.cons {node : Node} (apart : Apart filled done) (noText : node.text? = none) :
    Apart filled (node :: done) := by
  constructor
  · intro holds
    refine List.forall_mem_cons.2 ⟨?_, apart.notEmpty holds⟩
    rw [noText]
    nofun
  · exact List.isChain_cons.2 ⟨fun _ _ => .inr noText, apart.apart⟩

theorem Apart.putText (apart : Apart filled done) {content : String}
    (solid : filled → content ≠ "") : Apart filled (putText done content) := by
  rcases apart with ⟨notEmpty, apart⟩
  rw [putText.eq_def]
  split
  · rename_i before others
    rw [List.isChain_cons] at apart
    constructor
    · intro holds
      refine List.forall_mem_cons.2 ⟨?_, (List.forall_mem_cons.1 (notEmpty holds)).2⟩
      intro empty
      have joined : before ++ content = "" := Option.some.inj empty
      exact solid holds (String.append_eq_empty_iff.1 joined).2
    · refine List.isChain_cons.2 ⟨?_, apart.2⟩
      exact fun last isLast => .inl ((apart.1 last isLast).resolve_right nofun)
  · rename_i noText
    constructor
    · intro holds
      exact List.forall_mem_cons.2
        ⟨fun empty => solid holds (Option.some.inj empty), notEmpty holds⟩
    · refine List.isChain_cons.2 ⟨?_, apart⟩
      intro last isLast
      left
      cases last with
      | text before =>
          cases done with
          | nil => cases isLast
          | cons first others =>
              cases isLast
              exact absurd rfl (noText before others)
      | element | comment => rfl

end Apart

private theorem Apart.putBehind {done : List Node} (apart : Apart True done) (node : Node) :
    Apart True (putBehind done node) := by
  cases node with
  | text content =>
      rw [Node.putBehind]
      split
      · exact apart
      · rename_i solid
        exact apart.putText fun _ => solid
  | element | comment => exact apart.cons rfl

private theorem Apart.rereadAll {done : List Node} (apart : Apart True done) (nodes : List Node) :
    Apart True (rereadAll done nodes) := by
  induction nodes generalizing done with
  | nil => exact apart
  | cons node rest ih => exact ih (apart.putBehind node.reread)

/-- Where texts go, nothing comes together that has been apart. -/
private theorem apart_filter {nodes : List Node} {keep : Node → Bool}
    (apart : nodes.IsChain fun before next => before.text? = none ∨ next.text? = none)
    (dropped : ∀ node ∈ nodes, keep node = false → node.text? ≠ none) :
    (nodes.filter keep).IsChain fun before next => before.text? = none ∨ next.text? = none := by
  induction nodes with
  | nil => exact .nil
  | cons node rest ih =>
      rw [List.isChain_cons] at apart
      rw [List.forall_mem_cons] at dropped
      have others := ih apart.2 dropped.2
      cases keeps : keep node with
      | false =>
          rw [List.filter_cons_of_neg (by simp [keeps])]
          exact others
      | true =>
          rw [List.filter_cons_of_pos keeps]
          refine List.isChain_cons.2 ⟨?_, others⟩
          by_cases noText : node.text? = none
          · exact fun _ _ => .inl noText
          · -- Behind a text there is none, and so it stays.
            intro next isNext
            right
            cases rest with
            | nil => cases isNext
            | cons first rest =>
                have bare := (apart.1 first rfl).resolve_left noText
                have stays : keep first = true := by
                  cases keepsFirst : keep first with
                  | true => rfl
                  | false => exact absurd bare (dropped.2 first List.mem_cons_self keepsFirst)
                rw [List.filter_cons_of_pos stays] at isNext
                cases isNext
                exact bare

/-- Texts among siblings as the reader leaves them, empty ones aside. -/
structure TextsParted (filled : Prop) (siblings : List Node) : Prop where
  notEmpty : filled → ∀ node ∈ siblings, node.text? ≠ some ""
  apart : siblings.IsChain fun before next => before.text? = none ∨ next.text? = none
  notIndentation : siblings.any isElement = true →
    ∀ node ∈ siblings, Frame.isBlankTextNode node = false

theorem textsParted_dropIndentation {filled : Prop} {done : List Node} (apart : Apart filled done) :
    TextsParted filled (Frame.dropIndentation done.reverse) := by
  have notEmpty : filled → ∀ node ∈ done.reverse, node.text? ≠ some "" :=
    fun holds node member => apart.notEmpty holds node (List.mem_reverse.1 member)
  have forward : done.reverse.IsChain fun before next =>
      before.text? = none ∨ next.text? = none := List.isChain_reverse.2 apart.apart
  rw [Frame.dropIndentation]
  split
  · refine ⟨fun holds node member => notEmpty holds node (List.mem_filter.1 member).1, ?_, ?_⟩
    · apply apart_filter forward
      intro node _ isBlank noText
      rw [Frame.isBlankTextNode, noText] at isBlank
      cases isBlank
    · intro _ node member
      simpa using (List.mem_filter.1 member).2
  · rename_i noElement
    exact ⟨notEmpty, forward, fun elements => absurd elements noElement⟩

theorem TextsParted.kept {siblings : List Node} (parted : TextsParted True siblings) :
    TextsKept siblings :=
  ⟨parted.notEmpty trivial, parted.apart, parted.notIndentation⟩

private theorem textsKept_nil : TextsKept [] := by
  decide

/-- Reading keeps all texts of a document that it has read. -/
theorem keepsTexts_reread {node : Node} : KeepsTexts node.reread := by
  induction node using treeInduction with
  | element name attrs children ih =>
      intro inner member
      rw [reread_element] at member
      rcases mem_selfAndDescendants_element.1 member with rfl | ⟨child, among, below⟩
      · exact (textsParted_dropIndentation (Apart.nil.rereadAll children)).kept
      · have isChild : child ∈ (element name attrs children).reread.children := among
        rcases mem_children_reread isChild with ⟨content, rfl⟩ | ⟨source, isSource, rfl⟩
        · rw [mem_selfAndDescendants_of_childless rfl] at below
          rw [below]
          exact textsKept_nil
        · exact ih source isSource inner below
  | text | comment =>
      intro inner member
      rw [mem_selfAndDescendants_of_childless rfl] at member
      rw [member]
      exact textsKept_nil

/-- Reading what has been read and written changes nothing. -/
theorem reread_reread (node : Node) : node.reread.reread = node.reread :=
  reread_eq_self keepsTexts_reread

end Node

end TemplateFill
