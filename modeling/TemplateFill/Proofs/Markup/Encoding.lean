import TemplateFill.Markup.Encoding
import TemplateFill.Proofs.Text.Utf16
import TemplateFill.Proofs.Text.Utf8

/-!
# One document in several encodings

A text is read alike from all the encodings that a part may have.  A byte order mark is not found
by mistake: only a text that starts with the mark's own character starts with the bytes of a mark.
-/

namespace TemplateFill

namespace Utf16

/-- The byte order mark in either order. -/
def ByteOrder.mark : ByteOrder → Bytes
  | .little => [0xFF, 0xFE]
  | .big => [0xFE, 0xFF]

/-- What the encoding in either byte order is called. -/
def ByteOrder.label : ByteOrder → String
  | .little => "UTF-16LE"
  | .big => "UTF-16BE"

end Utf16

namespace Markup

open Utf16

/-! ## Marks -/

theorem decodeText_mark (order : ByteOrder) (rest : Bytes) :
    decodeText (order.mark ++ rest) =
      match Utf16.decode? order rest with
      | some text => .ok text
      | none => .error (.encoding order.label) := by
  cases order <;> rfl

theorem decodeText_utf8Mark (rest : Bytes) :
    decodeText (0xEF :: 0xBB :: 0xBF :: rest) =
      (Utf8.decode rest).mapError fun _ => .encoding "UTF-8" := rfl

/-- A text in UTF-8 that starts like a mark of UTF-8 starts with the character of the mark. -/
private theorem head?_of_utf8Mark {text : List Char} {rest : Bytes}
    (bytes : Utf8.encode text = 0xEF :: 0xBB :: 0xBF :: rest) : text.head? = some '\uFEFF' := by
  cases text with
  | nil => cases bytes
  | cons char text =>
      rcases Utf8.exists_encode_cons char text with ⟨lead, others, split, front⟩
      rw [bytes, List.cons.injEq] at split
      rcases split with ⟨rfl, rfl⟩
      have mark : Utf8.front 0xEF (0xBB :: 0xBF :: rest) = .code 0xFEFF rest := rfl
      rw [mark, Utf8.Front.code.injEq] at front
      rw [List.head?_cons, ← Char.ofNat_toNat char, ← front.1]

/-- No text in UTF-8 starts with a byte of the marks of UTF-16. -/
private theorem encode_ne_of_invalid {lead : UInt8}
    (invalid : ∀ rest, Utf8.front lead rest = .invalid 1) (text : List Char) (rest : Bytes) :
    Utf8.encode text ≠ lead :: rest := by
  intro bytes
  cases text with
  | nil => cases bytes
  | cons char text =>
      rcases Utf8.exists_encode_cons char text with ⟨lead, others, split, front⟩
      rw [bytes, List.cons.injEq] at split
      rcases split with ⟨rfl, rfl⟩
      rw [invalid] at front
      cases front

/-- A text in UTF-8 without a mark is read as it is. -/
theorem decodeText_encode_of_unmarked {text : List Char} (unmarked : text.head? ≠ some '\uFEFF') :
    decodeText (Utf8.encode text) = .ok text := by
  rw [decodeText.eq_def]
  split
  · rename_i bytes
    exact absurd (head?_of_utf8Mark bytes) unmarked
  · rename_i bytes
    exact absurd bytes (encode_ne_of_invalid (fun _ => rfl) text _)
  · rename_i bytes
    exact absurd bytes (encode_ne_of_invalid (fun _ => rfl) text _)
  · rw [Utf8.decode_encode]
    rfl

/-! ## Reading -/

theorem readBytes_of_decodeText {bytes : Bytes} {text : List Char}
    (decoded : decodeText bytes = .ok text) : readBytes bytes = readText text := by
  rw [readBytes, decoded]

/-- A text without a mark of its own is read alike, whether it comes in UTF-8 or, behind a mark, in
UTF-8 or either order of UTF-16; behind a mark of UTF-16 nothing is read that has a byte too many or
a surrogate without its other half. -/
theorem readBytes_in_every_encoding :
    (∀ text : List Char, text.head? ≠ some '\uFEFF' →
      readBytes (Utf8.encode text) = readText text ∧
      readBytes (0xEF :: 0xBB :: 0xBF :: Utf8.encode text) = readText text ∧
      ∀ order : ByteOrder, readBytes (order.mark ++ Utf16.encode order text) = readText text) ∧
    (∀ (order : ByteOrder) (rest : Bytes),
      rest.length % 2 = 1 ∨ HasUnpaired (wholeUnits order rest) →
        readBytes (order.mark ++ rest) = .error (.malformed (.encoding order.label))) := by
  constructor
  · intro text unmarked
    refine ⟨readBytes_of_decodeText (decodeText_encode_of_unmarked unmarked),
      readBytes_of_decodeText ?_, fun order => readBytes_of_decodeText ?_⟩
    · rw [decodeText_utf8Mark, Utf8.decode_encode]
      rfl
    · rw [decodeText_mark, decode?_encode]
  · intro order rest refused
    rw [readBytes, decodeText_mark, (decode?_eq_none_iff order rest).2 refused]

/-- A text with a character of four bytes in UTF-8, which is a surrogate pair in UTF-16, and a text
with one half of a pair alone. -/
theorem readBytes_paired_unpaired :
    ("<a>𝒳</a>".toList.head? ≠ some '\uFEFF' ∧
      readBytes (Utf8.encode "<a>𝒳</a>".toList) = readText "<a>𝒳</a>".toList ∧
      readBytes (0xFF :: 0xFE :: Utf16.encode .little "<a>𝒳</a>".toList) =
        readText "<a>𝒳</a>".toList) ∧
    HasUnpaired (wholeUnits .big [0x00, 0x3C, 0xDC, 0x00, 0x00, 0x61, 0x00]) ∧
    readBytes [0xFE, 0xFF, 0x00, 0x3C, 0xDC, 0x00, 0x00, 0x61, 0x00] =
      .error (.malformed (.encoding "UTF-16BE")) := by
  rcases readBytes_in_every_encoding with ⟨same, refused⟩
  have unmarked : "<a>𝒳</a>".toList.head? ≠ some '\uFEFF' := by decide
  have read := same "<a>𝒳</a>".toList unmarked
  have unpaired : HasUnpaired (wholeUnits .big [0x00, 0x3C, 0xDC, 0x00, 0x00, 0x61, 0x00]) :=
    ⟨[0x3C], 0xDC00, [0x61], rfl, .inr ⟨rfl, rfl⟩⟩
  exact ⟨⟨unmarked, read.1, read.2.2 .little⟩, unpaired, refused .big _ (.inr unpaired)⟩

end Markup

end TemplateFill
