import TemplateFill.Proofs.Markup.EmptyText
import TemplateFill.Proofs.Markup.LegalText

/-!
# Texts of documents that have been read

The reader joins text to the text in front of it and drops indentation when an element is closed.
So the texts of a document that has been read stand apart, and an empty one comes from an empty
section of character data.  A written document is therefore read back but for such texts.
-/

namespace TemplateFill

namespace Markup

open Node

section Parted

variable {filled : Prop}

/-- The texts at and below the children of an open element stand as the reader leaves them. -/
structure Frame.Parted (filled : Prop) (frame : Frame) : Prop where
  apart : Apart filled frame.children
  below : ∀ child ∈ frame.children, PartsTexts filled child

/-- The same for all open elements and, where it has been read, for the root. -/
structure ReadState.Parted (filled : Prop) (state : ReadState) : Prop where
  frames : ∀ frame ∈ state.frames, frame.Parted filled
  root : ∀ root, state.root = some root → PartsTexts filled root

namespace Frame.Parted

variable {frame : Frame}

theorem ofTag (outer : List Frame) (tag : Tag) : (Frame.ofTag outer tag).Parted filled :=
  ⟨.nil, List.forall_mem_nil _⟩

theorem push {node : Node} (parted : frame.Parted filled) (noText : node.text? = none)
    (inside : PartsTexts filled node) : (frame.push node).Parted filled :=
  ⟨parted.apart.cons noText, List.forall_mem_cons.2 ⟨inside, parted.below⟩⟩

theorem pushText (parted : frame.Parted filled) {content : List Char}
    (solid : filled → content ≠ []) : (frame.pushText content).Parted filled := by
  have isText : ∀ content, PartsTexts filled (.text content) :=
    fun _ => partsTexts_of_childless rfl rfl
  have put : frame.pushText content =
      frame.withChildren (putText frame.children (String.ofList content)) := by
    rw [← Frame.pushText_eq, String.toList_ofList]
  rw [put]
  constructor
  · refine parted.apart.putText fun holds empty => solid holds ?_
    rw [← String.toList_ofList (l := content), empty]
    rfl
  · intro child member
    rw [Frame.withChildren, putText.eq_def] at member
    split at member
    · rename_i before others same
      rcases List.mem_cons.1 member with rfl | among
      · exact isText _
      · exact parted.below child (same ▸ List.mem_cons_of_mem _ among)
    · rcases List.mem_cons.1 member with rfl | among
      · exact isText _
      · exact parted.below child among

/-- A closed element has no indentation left. -/
theorem close (parted : frame.Parted filled) : PartsTexts filled frame.close := by
  refine partsTexts_element.2 ⟨textsParted_dropIndentation parted.apart, ?_⟩
  intro child member
  apply parted.below child
  rw [← List.mem_reverse]
  rw [Frame.dropIndentation] at member
  split at member
  · exact (List.mem_filter.1 member).1
  · exact member

end Frame.Parted

namespace ReadState.Parted

variable {state next : ReadState}

theorem place {outer : List Frame} {root : Option Node} {node : Node}
    (frames : ∀ frame ∈ outer, frame.Parted filled)
    (known : ∀ node, root = some node → PartsTexts filled node)
    (element : node.isElement = true) (inside : PartsTexts filled node) :
    (ReadState.place outer root node).Parted filled := by
  have noText : node.text? = none := by
    cases node with
    | element | comment => rfl
    | text => cases element
  cases outer with
  | nil =>
      refine ⟨List.forall_mem_nil _, ?_⟩
      rintro _ ⟨⟩
      exact inside
  | cons frame outer =>
      rw [List.forall_mem_cons] at frames
      exact ⟨List.forall_mem_cons.2 ⟨frames.1.push noText inside, frames.2⟩, known⟩

theorem pushText (parted : state.Parted filled) {content : List Char}
    (solid : filled → content ≠ []) : (state.pushText content).Parted filled := by
  rcases state with ⟨frames, root⟩
  cases frames with
  | nil => exact parted
  | cons frame outer =>
      have frames := List.forall_mem_cons.1 parted.frames
      exact ⟨List.forall_mem_cons.2 ⟨frames.1.pushText solid, frames.2⟩, parted.root⟩

theorem pushComment (parted : state.Parted filled) (content : List Char) :
    (state.pushComment content).Parted filled := by
  rcases state with ⟨frames, root⟩
  cases frames with
  | nil => exact parted
  | cons frame outer =>
      have frames := List.forall_mem_cons.1 parted.frames
      have inside : PartsTexts filled (.comment (String.ofList content)) :=
        partsTexts_of_childless rfl rfl
      exact ⟨List.forall_mem_cons.2 ⟨frames.1.push rfl inside, frames.2⟩, parted.root⟩

/-- Taking a lexical unit leaves the texts apart. -/
theorem takes (parted : state.Parted filled) {lexeme : Lexeme} (wellCut : lexeme.WellCut)
    (noEmptySection : filled → lexeme ≠ .characterData []) (step : state.Takes lexeme next) :
    next.Parted filled := by
  cases step with
  | startTag => exact ⟨List.forall_mem_cons.2 ⟨.ofTag _ _, parted.frames⟩, parted.root⟩
  | emptyTag => exact .place parted.frames parted.root rfl (Frame.Parted.ofTag _ _).close
  | endTag opened =>
      have frames := parted.frames
      rw [opened, List.forall_mem_cons] at frames
      exact .place frames.2 parted.root rfl frames.1.close
  | text => exact parted.pushText fun _ => wellCut
  | characterData =>
      refine parted.pushText fun holds empty => noEmptySection holds ?_
      rw [empty]
  | comment => exact parted.pushComment _
  | reference => exact parted.pushText fun _ => List.cons_ne_nil _ _
  | ignored => exact parted

end ReadState.Parted

/-- The texts of a document that has been read stand as the reader leaves them; none is empty, if
the text has no empty section of character data. -/
theorem partsTexts_of_readText {text : List Char} {root : Node}
    (noEmptySection : filled → .characterData [] ∉ unitsOf (dropMark text))
    (read : readText text = .ok root) : PartsTexts filled root := by
  have start : ReadState.initial.Parted filled := ⟨List.forall_mem_nil _, fun _ none =>
    absurd none.symm (Option.some_ne_none _)⟩
  have parted : ReadState.Parted filled ⟨[], some root⟩ := by
    refine ReadState.invariant_of_takeAll ?_ start (ReadState.takeAll_of_readText read)
    intro lexeme among wellCut state next step parted
    refine parted.takes wellCut ?_ step
    rintro holds rfl
    exact noEmptySection holds among
  exact parted.root root rfl

end Parted

/-- What is written of a document that has been read from a text with legal names is read back
without the empty texts, and from then on nothing changes.  The document and its written form are
the same again just where no empty text has been read, which takes an empty section of character
data; the written form shows such a text only where it is all there is in an element. -/
theorem readBytes_toBytes_of_readText {text : List Char} {root : Node} (legal : LegalText text)
    (read : readText text = .ok root) :
    ∃ again, readBytes root.toBytes = .ok again ∧ readBytes again.toBytes = .ok again ∧
      again = root.dropEmptyTexts ∧
      (again.outline = root.outline ↔ ∀ inner ∈ root.descendants, inner.text? ≠ some "") ∧
      (again.toBytes = root.toBytes ↔
        ∀ inner ∈ root.selfAndDescendants, inner.children ≠ [.text ""]) ∧
      (.characterData [] ∉ unitsOf (dropMark text) → again = root) := by
  rcases writable_of_readText legal read with ⟨writable, element⟩
  have parted : PartsTexts False root := partsTexts_of_readText False.elim read
  have same : root.reread = root.dropEmptyTexts := reread_eq_dropEmptyTexts parted
  have twice : readBytes root.reread.toBytes = .ok root.reread.reread :=
    writable.reread.readBytes_eq_reread (root.isElement_reread.trans element)
  rw [reread_reread, same] at twice
  refine ⟨root.dropEmptyTexts, ?_, twice, rfl, ?_, toBytes_dropEmptyTexts_iff parted, ?_⟩
  · rw [writable.readBytes_eq_reread element, same]
  · rw [outline_inj, dropEmptyTexts_eq_self_iff]
  · intro noEmptySection
    have kept : PartsTexts True root := partsTexts_of_readText (fun _ => noEmptySection) read
    rw [← same]
    exact reread_eq_self fun inner member => (kept inner member).kept

/-- A text with references, character data, comments and indentation; two of its sections are
empty, one of them beside a comment. -/
def mixedText : List Char :=
  "<a k='&#60;'>\n <b>x&amp;<![CDATA[<&]]>&#65;</b><!--c--> ".toList ++
    "<c><!--d--><![CDATA[]]></c><?p?><d><![CDATA[]]></d></a>".toList

/-- The document of the sample. -/
def mixed : Node :=
  .element ⟨none, none, "a"⟩ [⟨⟨none, none, "k"⟩, "<"⟩]
    [.element ⟨none, none, "b"⟩ [] [.text "x&<&A"],
      .comment "c",
      .element ⟨none, none, "c"⟩ [] [.comment "d", .text ""],
      .element ⟨none, none, "d"⟩ [] [.text ""]]

/-- The sample is read back without its two empty texts. -/
theorem readBytes_toBytes_mixed :
    LegalText mixedText ∧ readText mixedText = .ok mixed ∧
      readBytes mixed.toBytes = .ok mixed.dropEmptyTexts := by
  have legal : LegalText mixedText := by decide +kernel
  have read : readText mixedText = .ok mixed := readText_of_outline (by decide +kernel)
  rcases readBytes_toBytes_of_readText legal read with ⟨again, back, _, rfl, _⟩
  exact ⟨legal, read, back⟩

/-- An element that holds an empty section only is read back without the text, and is then written
as one tag. -/
theorem emptySection_lost :
    ¬ ∀ (text : List Char) (root : Node), LegalText text → readText text = .ok root →
      ∃ again, readBytes root.toBytes = .ok again ∧ again.outline = root.outline ∧
        again.toBytes = root.toBytes := by
  intro kept
  have read : readText "<a><![CDATA[]]></a>".toList =
      .ok (.element ⟨none, none, "a"⟩ [] [.text ""]) := readText_of_outline (by decide +kernel)
  have lost : readBytes (Node.element ⟨none, none, "a"⟩ [] [.text ""]).toBytes =
      .ok (.element ⟨none, none, "a"⟩ [] []) := readBytes_of_outline (by decide +kernel)
  rcases kept _ _ (by decide +kernel) read with ⟨again, back, same, _⟩
  rw [lost] at back
  cases back
  cases same

end Markup

end TemplateFill
