import TemplateFill.Text.Bytes

/-!
# Checksums

The checksum of an entry is the remainder of its bits, as a polynomial over two elements,
by a fixed polynomial of degree 32, with all bits inverted at start and end.
-/

namespace TemplateFill.Archive

/-- The dividing polynomial without its leading term, the lowest power in the highest bit. -/
def checksumPolynomial : UInt32 := 0xEDB88320

/-- Shift a remainder by `count` bits. -/
def shiftRemainder : (count : Nat) → UInt32 → UInt32
  | 0, remainder => remainder
  | count + 1, remainder =>
      let shifted := remainder >>> 1
      shiftRemainder count
        (if remainder &&& 1 == 1 then shifted ^^^ checksumPolynomial else shifted)

/-- Take one byte into a remainder. -/
def addToRemainder (remainder : UInt32) (byte : UInt8) : UInt32 :=
  shiftRemainder 8 (remainder ^^^ byte.toUInt32)

/-- The checksum of a byte sequence. -/
def checksum (bytes : Bytes) : Nat :=
  (bytes.foldl addToRemainder 0xFFFFFFFF ^^^ 0xFFFFFFFF).toNat

end TemplateFill.Archive
