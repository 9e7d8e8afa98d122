import TemplateFill.Text.Numeral

/-!
# References

A reference stands for one character: by one of five names, or by the number of its
code point.  Writing puts the five characters with a name in references.  Reading follows
two rules: references in running text are resolved or not, those in attribute values are
refused for a stated reason.
-/

namespace TemplateFill.Markup

open TemplateFill.Text

/-- The named references. -/
def namedReferences : List (List Char × Char) :=
  [(['a', 'p', 'o', 's'], '\''), (['q', 'u', 'o', 't'], '"'), (['l', 't'], '<'),
   (['g', 't'], '>'), (['a', 'm', 'p'], '&')]

/-- How a character of a text or an attribute value is written. -/
def escapeChar : Char → List Char
  | '<' => ['&', 'l', 't', ';']
  | '>' => ['&', 'g', 't', ';']
  | '&' => ['&', 'a', 'm', 'p', ';']
  | '\'' => ['&', 'a', 'p', 'o', 's', ';']
  | '"' => ['&', 'q', 'u', 'o', 't', ';']
  | char => [char]

/-- How a text or an attribute value is written. -/
def escape (text : List Char) : List Char :=
  text.flatMap escapeChar

/-- The name of a reference and what follows its semicolon: none of the characters `stops`
may come before the semicolon. -/
def cutReference? (stops : List Char) : List Char → Option (List Char × List Char)
  | [] => none
  | char :: rest =>
      if char = ';' then
        some ([], rest)
      else if char ∈ stops then
        none
      else
        (cutReference? stops rest).map fun cut => (char :: cut.1, cut.2)

/-- A cut reference leaves less than there was. -/
theorem length_lt_of_cutReference? {stops text name after : List Char}
    (cut : cutReference? stops text = some (name, after)) : after.length < text.length := by
  induction text generalizing name with
  | nil => simp [cutReference?] at cut
  | cons char rest ih =>
      simp only [cutReference?] at cut
      split at cut
      · simp only [Option.some.injEq, Prod.mk.injEq] at cut
        simp [cut.2]
      · split at cut
        · simp at cut
        · simp only [Option.map_eq_some_iff] at cut
          obtain ⟨⟨front, back⟩, found, equal⟩ := cut
          simp only [Prod.mk.injEq] at equal
          obtain ⟨-, rfl⟩ := equal
          exact Nat.lt_succ_of_lt (ih found)

/-- A numeral with at most one plus sign in front. -/
def plusNatural? (radix : Nat) : List Char → Option Nat
  | '+' :: digits => natural? radix digits
  | digits => natural? radix digits

/-- The character that a reference in running text stands for. -/
def resolveReference? (name : List Char) : Option Char :=
  match namedReferences.lookup name with
  | some char => some char
  | none =>
      match name with
      | '#' :: 'x' :: digits => (plusNatural? 16 digits).bind scalar?
      | '#' :: digits => (plusNatural? 10 digits).bind scalar?
      | _ => none

/-- Why a number in an attribute value names no character. -/
inductive NumberFault where
  | sign
  | noDigits
  | digit
  | tooLarge
  | zero
  | notCodePoint (number : Nat)
  deriving DecidableEq, Repr

/-- The wording of a number fault. -/
def NumberFault.message : NumberFault → String
  | .sign => "unexpected number sign"
  | .noDigits => "cannot parse integer from empty string"
  | .digit => "invalid digit found in string"
  | .tooLarge => "number too large to fit in target type"
  | .zero => "0x0 character is not permitted in XML"
  | .notCodePoint number => s!"`{number}` is not a valid codepoint"

/-- Read digits after the number `start`: the first one that is no digit, or that takes the
number past 32 bits, decides. -/
def readDigits (radix start : Nat) : List Char → Except NumberFault Nat
  | [] => .ok start
  | char :: rest =>
      match digit? radix char with
      | none => .error .digit
      | some value =>
          let next := start * radix + value
          if next < 2 ^ 32 then readDigits radix next rest else .error .tooLarge

/-- The number of a numeric reference in an attribute value. -/
def readNumber (radix : Nat) : List Char → Except NumberFault Nat
  | [] => .error .noDigits
  | '+' :: _ => .error .sign
  | '-' :: _ => .error .sign
  | digits => readDigits radix 0 digits

/-- The character of a numeric reference in an attribute value, read from what follows the
number sign. -/
def readCodePoint (text : List Char) : Except NumberFault Char := do
  let number ←
    match text with
    | 'x' :: digits => readNumber 16 digits
    | digits => readNumber 10 digits
  if number = 0 then
    throw .zero
  match scalar? number with
  | some char => return char
  | none => throw (.notCodePoint number)

/-- Why an attribute value cannot be read.  Positions count bytes in the value. -/
inductive ValueFault where
  /-- After the reference sign at `start` comes another one, or the end at `stop`. -/
  | unterminated (start stop : Nat)
  /-- The bytes from `start` to `stop` name no reference. -/
  | unrecognized (start stop : Nat) (name : String)
  | number (fault : NumberFault)
  deriving DecidableEq, Repr

/-- The wording of a value fault. -/
def ValueFault.message : ValueFault → String
  | .unterminated start stop =>
      s!"Error while escaping character at range {start}..{stop}: Cannot find ';' after '&'"
  | .unrecognized start stop name => s!"at {start}..{stop}: unrecognized entity `{name}`"
  | .number fault => "invalid character reference: " ++ fault.message

/-- The number of bytes of a text in UTF-8. -/
def byteLength (text : List Char) : Nat :=
  text.foldl (fun length char => length + char.utf8Size) 0

/-- The character of the reference `name`, which stands at byte `start` of a value. -/
def readReference (start : Nat) (name : List Char) : Except ValueFault Char :=
  match name with
  | '#' :: number => (readCodePoint number).mapError .number
  | _ =>
      match namedReferences.lookup name with
      | some char => .ok char
      | none => .error (.unrecognized start (start + byteLength name) (String.ofList name))

/-- Read on in a value of `total` bytes at byte `offset`, after the characters `done` (in
reverse). -/
def unescapeFrom (total offset : Nat) (done : List Char) (text : List Char) :
    Except ValueFault (List Char) :=
  match text with
  | [] => .ok done.reverse
  | char :: rest =>
      if char = '&' then
        match _cut : cutReference? ['&'] rest with
        | some (name, after) =>
            match readReference (offset + 1) name with
            | .ok char =>
                unescapeFrom total (offset + byteLength name + 2) (char :: done) after
            | .error fault => .error fault
        | none => .error (.unterminated offset total)
      else
        unescapeFrom total (offset + char.utf8Size) (char :: done) rest
termination_by text.length
decreasing_by
  · exact Nat.lt_succ_of_lt (length_lt_of_cutReference? _cut)
  · exact Nat.lt_succ_self _

/-- The text that an attribute value stands for. -/
def unescape (value : List Char) : Except ValueFault (List Char) :=
  unescapeFrom (byteLength value) 0 [] value

end TemplateFill.Markup
