/-!
# Byte sequences

A byte sequence is a list of bytes.  Numbers in archives stand with their least
significant byte first.
-/

namespace TemplateFill

/-- The content of a file or a part. -/
abbrev Bytes := List UInt8

namespace Bytes

/-- The number whose bytes stand least significant first. -/
def littleEndian : Bytes → Nat
  | [] => 0
  | byte :: rest => byte.toNat + 256 * littleEndian rest

/-- The `width` low bytes of a number, least significant first. -/
def ofNat : (width : Nat) → Nat → Bytes
  | 0, _ => []
  | width + 1, number => UInt8.ofNat number :: ofNat width (number / 256)

/-- The number in the `width` bytes at `offset`, if they are all there. -/
def field? (bytes : Bytes) (offset width : Nat) : Option Nat :=
  let taken := (bytes.drop offset).take width
  if taken.length = width then some (littleEndian taken) else none

@[simp] theorem length_ofNat (width number : Nat) : (ofNat width number).length = width := by
  induction width generalizing number with
  | zero => rfl
  | succ width ih => simp [ofNat, ih]

end Bytes

end TemplateFill
