import TemplateFill.Text.Bytes
import TemplateFill.Text.Numeral

/-!
# UTF-8

`encode` writes a text in UTF-8 and `decode` reads it back, refusing every byte
sequence that is not the encoding of a text.  A refusal tells where the first bad
sequence starts and how many of its bytes could still have started a character.
-/

namespace TemplateFill.Utf8

open TemplateFill.Text

/-- Why a byte sequence is not UTF-8. -/
inductive Fault where
  /-- The `length` bytes at `index` start no character. -/
  | invalid (length index : Nat)
  /-- The input ends inside the character that starts at `index`. -/
  | incomplete (index : Nat)
  deriving DecidableEq, Repr

/-- The wording of a fault. -/
def Fault.message : Fault → String
  | .invalid length index =>
      s!"invalid utf-8 sequence of {length} bytes from index {index}"
  | .incomplete index => s!"incomplete utf-8 byte sequence from index {index}"

/-- The bytes of one character: one to four of them, by its code point. -/
def encodeChar (char : Char) : Bytes :=
  let code := char.toNat
  if code < 0x80 then
    [UInt8.ofNat code]
  else if code < 0x800 then
    [UInt8.ofNat (0xC0 + code / 64), UInt8.ofNat (0x80 + code % 64)]
  else if code < 0x10000 then
    [UInt8.ofNat (0xE0 + code / 4096), UInt8.ofNat (0x80 + code / 64 % 64),
     UInt8.ofNat (0x80 + code % 64)]
  else
    [UInt8.ofNat (0xF0 + code / 262144), UInt8.ofNat (0x80 + code / 4096 % 64),
     UInt8.ofNat (0x80 + code / 64 % 64), UInt8.ofNat (0x80 + code % 64)]

/-- The bytes of a text. -/
def encode (text : List Char) : Bytes :=
  text.flatMap encodeChar

/-- A byte that continues a character. -/
def isTail (byte : Nat) : Bool := 0x80 ≤ byte && byte ≤ 0xBF

/-- A second byte of a three byte character: after the leads 0xE0 and 0xED only half of
the continuation bytes, so that no character has two encodings and none is a surrogate. -/
def isSecondOfThree (lead byte : Nat) : Bool :=
  isTail byte && (lead != 0xE0 || 0xA0 ≤ byte) && (lead != 0xED || byte ≤ 0x9F)

/-- A second byte of a four byte character, which stays below the last code point. -/
def isSecondOfFour (lead byte : Nat) : Bool :=
  isTail byte && (lead != 0xF0 || 0x90 ≤ byte) && (lead != 0xF4 || byte ≤ 0x8F)

/-- What the front of a byte sequence holds. -/
inductive Front where
  /-- The character with this code point, and the bytes after it. -/
  | code (value : Nat) (rest : Bytes)
  /-- So many bytes that start no character. -/
  | invalid (length : Nat)
  /-- The start of a character that the input cuts off. -/
  | incomplete
  deriving DecidableEq, Repr

/-- Read the front of a byte sequence that starts with `lead`. -/
def front (lead : UInt8) (rest : Bytes) : Front :=
  let first := lead.toNat
  if first < 0x80 then
    .code first rest
  else if first < 0xC2 then
    .invalid 1
  else if first < 0xE0 then
    match rest with
    | [] => .incomplete
    | second :: rest =>
        if isTail second.toNat then
          .code ((first - 0xC0) * 64 + (second.toNat - 0x80)) rest
        else .invalid 1
  else if first < 0xF0 then
    match rest with
    | [] => .incomplete
    | second :: rest =>
        if isSecondOfThree first second.toNat then
          match rest with
          | [] => .incomplete
          | third :: rest =>
              if isTail third.toNat then
                .code ((first - 0xE0) * 4096 + (second.toNat - 0x80) * 64 +
                  (third.toNat - 0x80)) rest
              else .invalid 2
        else .invalid 1
  else if first < 0xF5 then
    match rest with
    | [] => .incomplete
    | second :: rest =>
        if isSecondOfFour first second.toNat then
          match rest with
          | [] => .incomplete
          | third :: rest =>
              if isTail third.toNat then
                match rest with
                | [] => .incomplete
                | fourth :: rest =>
                    if isTail fourth.toNat then
                      .code ((first - 0xF0) * 262144 + (second.toNat - 0x80) * 4096 +
                        (third.toNat - 0x80) * 64 + (fourth.toNat - 0x80)) rest
                    else .invalid 3
              else .invalid 2
        else .invalid 1
  else .invalid 1

/-- What follows a character is no longer than what followed its first byte. -/
theorem length_le_of_front {lead : UInt8} {rest after : Bytes} {value : Nat}
    (read : front lead rest = .code value after) : after.length ≤ rest.length := by
  unfold front at read
  simp only at read
  repeat' split at read
  all_goals simp only [Front.code.injEq, reduceCtorEq] at read
  all_goals
    obtain ⟨-, rfl⟩ := read
    simp only [List.length_cons, Nat.le_refl, Nat.le_add_right, Nat.add_assoc]

/-- Read on in a sequence of `size` bytes, after the characters `done` (in reverse); a bad
sequence starts where what is left begins. -/
def decodeFrom (size : Nat) (done : List Char) (bytes : Bytes) : Except Fault (List Char) :=
  match bytes with
  | [] => .ok done.reverse
  | lead :: rest =>
      match _read : front lead rest with
      | .code value after => decodeFrom size (Char.ofNat value :: done) after
      | .invalid length => .error (.invalid length (size - (lead :: rest).length))
      | .incomplete => .error (.incomplete (size - (lead :: rest).length))
termination_by bytes.length
decreasing_by
  have := length_le_of_front _read
  simp only [List.length_cons]
  omega

/-- The text that a byte sequence encodes. -/
def decode (bytes : Bytes) : Except Fault (List Char) :=
  decodeFrom bytes.length [] bytes

/-- Read a byte sequence with the replacement character for every sequence that is not
UTF-8, after the characters `done` (in reverse). -/
def decodeLossyFrom (done : List Char) (bytes : Bytes) : List Char :=
  match bytes with
  | [] => done.reverse
  | lead :: rest =>
      match _read : front lead rest with
      | .code value after => decodeLossyFrom (Char.ofNat value :: done) after
      | .invalid length => decodeLossyFrom ('\uFFFD' :: done) (rest.drop (length - 1))
      | .incomplete => ('\uFFFD' :: done).reverse
termination_by bytes.length
decreasing_by
  · have := length_le_of_front _read
    simp only [List.length_cons]
    omega
  · simp only [List.length_drop, List.length_cons]
    omega

/-- Read a byte sequence with the replacement character for every sequence that is not
UTF-8. -/
def decodeLossy (bytes : Bytes) : List Char :=
  decodeLossyFrom [] bytes

end TemplateFill.Utf8
