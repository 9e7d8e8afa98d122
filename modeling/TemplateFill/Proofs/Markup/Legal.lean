import Mathlib.Data.List.Infix
import TemplateFill.Markup.Reader
import TemplateFill.Text.Blank

/-!
# Legal names and comments

The names and comments that the XML recommendation allows.  A legal name holds none of the
characters that divide markup, and a comment ends where its text ends.
-/

namespace TemplateFill

namespace Markup

/-- The code points that a name without qualifier may start with. -/
def nameStartRanges : List (Nat × Nat) :=
  [(0x41, 0x5A), (0x5F, 0x5F), (0x61, 0x7A), (0xC0, 0xD6), (0xD8, 0xF6), (0xF8, 0x2FF),
   (0x370, 0x37D), (0x37F, 0x1FFF), (0x200C, 0x200D), (0x2070, 0x218F), (0x2C00, 0x2FEF),
   (0x3001, 0xD7FF), (0xF900, 0xFDCF), (0xFDF0, 0xFFFD), (0x10000, 0xEFFFF)]

/-- The code points that a name may hold behind its first character only. -/
def nameRestRanges : List (Nat × Nat) :=
  [(0x2D, 0x2E), (0x30, 0x39), (0xB7, 0xB7), (0x300, 0x36F), (0x203F, 0x2040)]

def isNameStart (char : Char) : Bool :=
  nameStartRanges.any fun range => range.1 ≤ char.toNat && char.toNat ≤ range.2

def isNameChar (char : Char) : Bool :=
  (nameStartRanges ++ nameRestRanges).any fun range =>
    range.1 ≤ char.toNat && char.toNat ≤ range.2

/-- A name without qualifier. -/
def isSimpleName : List Char → Bool
  | [] => false
  | char :: rest => isNameStart char && rest.all isNameChar

/-- The text of a comment: two dashes would end it. -/
structure IsCommentText (content : List Char) : Prop where
  noDashes : ¬ ['-', '-'] <:+: content
  noLastDash : content.getLast? ≠ some '-'

instance (content : List Char) : Decidable (IsCommentText content) :=
  decidable_of_decidable_of_iff
    (p := ¬ ['-', '-'] <:+: content ∧ content.getLast? ≠ some '-')
    ⟨fun both => ⟨both.1, both.2⟩, fun legal => ⟨legal.noDashes, legal.noLastDash⟩⟩

/-! ## Simple names -/

section SimpleName

variable {name : List Char} {char divider : Char}

theorem isNameChar_of_isNameStart (start : isNameStart char = true) :
    isNameChar char = true := by
  rw [isNameChar, List.any_append, Bool.or_eq_true]
  exact .inl start

theorem isNameChar_of_mem (simple : isSimpleName name = true) (member : char ∈ name) :
    isNameChar char = true := by
  cases name with
  | nil => cases member
  | cons first rest =>
      rw [isSimpleName, Bool.and_eq_true] at simple
      rcases List.mem_cons.1 member with rfl | later
      · exact isNameChar_of_isNameStart simple.1
      · exact List.all_eq_true.1 simple.2 char later

theorem ne_of_isNameChar (legal : isNameChar char = true) (divides : isNameChar divider = false) :
    char ≠ divider := by
  rintro rfl
  rw [legal] at divides
  cases divides

theorem not_mem_of_isSimpleName (simple : isSimpleName name = true)
    (divides : isNameChar divider = false) : divider ∉ name :=
  fun member => ne_of_isNameChar (isNameChar_of_mem simple member) divides rfl

theorem exists_cons_of_isSimpleName (simple : isSimpleName name = true) :
    ∃ first rest, name = first :: rest ∧ isNameStart first = true := by
  cases name with
  | nil => cases simple
  | cons first rest =>
      rw [isSimpleName, Bool.and_eq_true] at simple
      exact ⟨first, rest, rfl, simple.1⟩

end SimpleName

end Markup

open Markup Text

/-- The local name and the qualifier are simple names. -/
structure QName.Legal (name : QName) : Prop where
  localName : isSimpleName name.localName.toList = true
  qualifier : ∀ qualifier, name.qualifier = some qualifier → isSimpleName qualifier.toList = true

instance (name : QName) : Decidable name.Legal :=
  decidable_of_decidable_of_iff
    (p := isSimpleName name.localName.toList = true ∧
      ∀ qualifier ∈ name.qualifier, isSimpleName qualifier.toList = true)
    ⟨fun both => ⟨both.1, both.2⟩, fun legal => ⟨legal.localName, legal.qualifier⟩⟩

namespace QName.Legal

variable {name other : QName}

/-- The characters of a legal name as it is written. -/
theorem mem_written (legal : name.Legal) {char : Char} (member : char ∈ name.written.toList) :
    isNameChar char = true ∨ char = ':' := by
  rw [written] at member
  split at member
  · rename_i qualifier qualified
    simp only [String.toList_append, List.mem_append] at member
    rcases member with (before | colon) | after
    · exact .inl (isNameChar_of_mem (legal.qualifier qualifier qualified) before)
    · right
      simpa using colon
    · exact .inl (isNameChar_of_mem legal.localName after)
  · exact .inl (isNameChar_of_mem legal.localName member)

theorem not_mem_written (legal : name.Legal) {divider : Char}
    (divides : isNameChar divider = false) (noColon : divider ≠ ':') :
    divider ∉ name.written.toList := by
  intro member
  rcases legal.mem_written member with inName | colon
  · exact ne_of_isNameChar inName divides rfl
  · exact noColon colon

theorem exists_written (legal : name.Legal) :
    ∃ first rest, name.written.toList = first :: rest ∧ isNameStart first = true := by
  rw [written]
  split
  · rename_i qualifier qualified
    rcases exists_cons_of_isSimpleName (legal.qualifier qualifier qualified) with
      ⟨first, rest, same, start⟩
    refine ⟨first, rest ++ ":".toList ++ name.localName.toList, ?_, start⟩
    simp [same]
  · exact exists_cons_of_isSimpleName legal.localName

end QName.Legal

/-! ## Comments -/

namespace Markup

/-- The text of a legal comment does not hold the end of a comment. -/
theorem IsCommentText.unended {content : List Char} (legal : IsCommentText content) :
    ¬ ['-', '-', '>'] <:+: content := by
  intro inside
  have dashes : ['-', '-'] <:+: ['-', '-', '>'] := by decide
  exact legal.noDashes (dashes.trans inside)

/-- The first end of a comment is the one behind its text. -/
theorem cutPattern?_comment {content : List Char} (unended : ¬ ['-', '-', '>'] <:+: content)
    (after : List Char) :
    cutPattern? ['-', '-', '>'] (content ++ (['-', '-', '>'] ++ after)) =
      some (content, after) := by
  have passed : ∀ before, cutPatternFrom? ['-', '-', '>'] before
      (content ++ (['-', '-', '>'] ++ after)) = some (before.reverse ++ content, after) := by
    induction content with
    | nil =>
        intro before
        simp [cutPatternFrom?, stripFront?]
    | cons char content ih =>
        intro before
        have stays : stripFront? ['-', '-', '>']
            (char :: (content ++ (['-', '-', '>'] ++ after))) = none := by
          rw [Option.eq_none_iff_forall_ne_some]
          intro rest stripped
          have whole := eq_append_of_stripFront? stripped
          -- The end would have to lie in the text, since two dashes are in front of its bracket.
          rcases content with _ | ⟨second, _ | ⟨third, content⟩⟩
          · simp at whole
          · simp at whole
          · simp only [List.cons_append, List.cons.injEq] at whole
            rcases whole with ⟨rfl, rfl, rfl, _⟩
            exact unended ⟨[], content, rfl⟩
        have later : ¬ ['-', '-', '>'] <:+: content := fun inside =>
          unended (inside.trans (List.suffix_cons char content).isInfix)
        rw [List.cons_append, cutPatternFrom?, stays]
        simp only
        rw [ih later, List.reverse_cons, List.append_assoc, List.singleton_append]
  exact passed []

end Markup

end TemplateFill
