/-!
# Numerals

A numeral is read digit by digit in a radix of at most sixteen; what does not
consist of digits alone is no numeral.
-/

namespace TemplateFill.Text

/-- The value of a hexadecimal digit. -/
def hexDigit? (char : Char) : Option Nat :=
  if '0' ≤ char ∧ char ≤ '9' then some (char.toNat - '0'.toNat)
  else if 'a' ≤ char ∧ char ≤ 'f' then some (char.toNat - 'a'.toNat + 10)
  else if 'A' ≤ char ∧ char ≤ 'F' then some (char.toNat - 'A'.toNat + 10)
  else none

/-- The value of a digit in `radix`. -/
def digit? (radix : Nat) (char : Char) : Option Nat :=
  (hexDigit? char).filter (· < radix)

/-- The value of the digits `text` written after the number `start`. -/
def digitsFrom? (radix start : Nat) : List Char → Option Nat
  | [] => some start
  | char :: rest =>
      match digit? radix char with
      | some value => digitsFrom? radix (start * radix + value) rest
      | none => none

/-- An unsigned numeral: one digit or more. -/
def natural? (radix : Nat) : List Char → Option Nat
  | [] => none
  | text => digitsFrom? radix 0 text

/-- A decimal numeral with an optional sign. -/
def integer? : List Char → Option Int
  | '-' :: digits => (natural? 10 digits).map fun value => -(value : Int)
  | '+' :: digits => (natural? 10 digits).map Int.ofNat
  | digits => (natural? 10 digits).map Int.ofNat

/-- A decimal numeral with an optional sign whose value fits 64 signed bits. -/
def signed64? (text : List Char) : Option Int :=
  (integer? text).filter fun value =>
    -9223372036854775808 ≤ value ∧ value ≤ 9223372036854775807

/-- The character at a code point: surrogates and numbers past the last code point
have none. -/
def scalar? (code : Nat) : Option Char :=
  if valid : code.isValidChar then some (Char.ofNatAux code valid) else none

end TemplateFill.Text
