import TemplateFill.Text.Bytes
import TemplateFill.Text.Numeral

/-!
# UTF-16

A text is written as sixteen bit units in one of two byte orders.  Reading refuses an
odd number of bytes and every surrogate that is not part of a pair.
-/

namespace TemplateFill.Utf16

open TemplateFill.Text

/-- Which byte of a unit stands first. -/
inductive ByteOrder where
  | little
  | big
  deriving DecidableEq, Repr

/-- The two bytes of a unit. -/
def ByteOrder.write (order : ByteOrder) (unit : Nat) : Bytes :=
  match order with
  | .little => [UInt8.ofNat (unit % 256), UInt8.ofNat (unit / 256)]
  | .big => [UInt8.ofNat (unit / 256), UInt8.ofNat (unit % 256)]

/-- The unit of two bytes. -/
def ByteOrder.read (order : ByteOrder) (first second : UInt8) : Nat :=
  match order with
  | .little => first.toNat + 256 * second.toNat
  | .big => 256 * first.toNat + second.toNat

/-- The units of one character: a surrogate pair from 0x10000 on. -/
def charUnits (char : Char) : List Nat :=
  let code := char.toNat
  if code < 0x10000 then
    [code]
  else
    [0xD800 + (code - 0x10000) / 1024, 0xDC00 + (code - 0x10000) % 1024]

/-- The units of a text. -/
def units (text : List Char) : List Nat :=
  text.flatMap charUnits

/-- The bytes of a text. -/
def encode (order : ByteOrder) (text : List Char) : Bytes :=
  (units text).flatMap order.write

/-- The units in a byte sequence of even length, after the units `done` (in reverse). -/
def unitsFrom? (order : ByteOrder) (done : List Nat) : Bytes → Option (List Nat)
  | [] => some done.reverse
  | [_] => none
  | first :: second :: rest => unitsFrom? order (order.read first second :: done) rest

/-- A unit that starts a surrogate pair. -/
def isHigh (unit : Nat) : Bool := 0xD800 ≤ unit && unit ≤ 0xDBFF

/-- A unit that ends a surrogate pair. -/
def isLow (unit : Nat) : Bool := 0xDC00 ≤ unit && unit ≤ 0xDFFF

/-- The text of a sequence of units, after the characters `done` (in reverse). -/
def textFrom? (done : List Char) : List Nat → Option (List Char)
  | [] => some done.reverse
  | unit :: rest =>
      if isLow unit then
        none
      else if isHigh unit then
        match rest with
        | low :: rest =>
            if isLow low then
              let code := 0x10000 + (unit - 0xD800) * 1024 + (low - 0xDC00)
              textFrom? (Char.ofNat code :: done) rest
            else none
        | [] => none
      else textFrom? (Char.ofNat unit :: done) rest

/-- The text that a byte sequence encodes in the given order. -/
def decode? (order : ByteOrder) (bytes : Bytes) : Option (List Char) :=
  (unitsFrom? order [] bytes).bind (textFrom? [])

end TemplateFill.Utf16
