import Mathlib.Data.List.Basic
import TemplateFill.Text.Utf16

/-!
# UTF-16 is read back

Reading a text that has been written in either byte order gives the text, and everything that is
not the encoding of a text is refused: a byte too many, and every surrogate that stands without its
other half.
-/

namespace TemplateFill.Utf16

open TemplateFill.Text

/-! ## Units in bytes -/

/-- The units in a byte sequence; a byte too many at its end is none. -/
def wholeUnits (order : ByteOrder) : Bytes → List Nat
  | first :: second :: rest => order.read first second :: wholeUnits order rest
  | _ => []

/-- Bytes are cut into units if there is none too many. -/
theorem unitsFrom?_eq (order : ByteOrder) (done : List Nat) (bytes : Bytes) :
    unitsFrom? order done bytes =
      if bytes.length % 2 = 0 then some (done.reverse ++ wholeUnits order bytes) else none := by
  fun_induction unitsFrom? order done bytes with
  | case1 done => simp [wholeUnits]
  | case2 done last => simp
  | case3 done first second rest ih =>
      have length : (first :: second :: rest).length % 2 = rest.length % 2 := by
        rw [List.length_cons, List.length_cons]
        omega
      rw [ih, length, wholeUnits, List.reverse_cons, List.append_assoc, List.singleton_append]

/-- A unit is read back from its two bytes. -/
theorem ByteOrder.exists_write_eq (order : ByteOrder) {unit : Nat} (small : unit < 0x10000) :
    ∃ first second, order.write unit = [first, second] ∧ order.read first second = unit := by
  cases order <;> refine ⟨_, _, rfl, ?_⟩ <;>
  · rw [ByteOrder.read, UInt8.toNat_ofNat', UInt8.toNat_ofNat']
    omega

/-- Units are read back from their bytes, and there is no byte too many. -/
theorem wholeUnits_flatMap_write (order : ByteOrder) {units : List Nat}
    (small : ∀ unit ∈ units, unit < 0x10000) :
    (units.flatMap order.write).length % 2 = 0 ∧
      wholeUnits order (units.flatMap order.write) = units := by
  induction units with
  | nil => exact ⟨rfl, rfl⟩
  | cons unit rest ih =>
      rw [List.forall_mem_cons] at small
      rcases order.exists_write_eq small.1 with ⟨first, second, bytes, read⟩
      rcases ih small.2 with ⟨even, units⟩
      rw [List.flatMap_cons, bytes, List.cons_append, List.singleton_append, wholeUnits, read,
        units]
      refine ⟨?_, rfl⟩
      rw [List.length_cons, List.length_cons]
      omega

/-! ## Characters in units -/

section Char

variable {code : Nat}

private theorem isLow_of_range (large : 0xDC00 ≤ code) (small : code ≤ 0xDFFF) :
    isLow code = true := by
  simp [isLow, large, small]

private theorem isLow_eq_false (outside : code < 0xDC00 ∨ 0xDFFF < code) : isLow code = false := by
  simp only [isLow, Bool.and_eq_false_iff, decide_eq_false_iff_not]
  omega

private theorem isHigh_of_range (large : 0xD800 ≤ code) (small : code ≤ 0xDBFF) :
    isHigh code = true := by
  simp [isHigh, large, small]

private theorem isHigh_eq_false (outside : code < 0xD800 ∨ 0xDBFF < code) :
    isHigh code = false := by
  simp only [isHigh, Bool.and_eq_false_iff, decide_eq_false_iff_not]
  omega

end Char

theorem lt_of_mem_charUnits {char : Char} {unit : Nat} (member : unit ∈ charUnits char) :
    unit < 0x10000 := by
  have valid : char.toNat.isValidChar := char.valid
  rw [Nat.isValidChar] at valid
  rw [charUnits] at member
  split at member
  · rw [List.mem_singleton] at member
    omega
  · rw [List.mem_cons, List.mem_singleton] at member
    omega

theorem lt_of_mem_units {text : List Char} {unit : Nat} (member : unit ∈ units text) :
    unit < 0x10000 := by
  rcases List.mem_flatMap.1 member with ⟨char, -, among⟩
  exact lt_of_mem_charUnits among

/-- The units of a character are read as this character, whatever follows them. -/
theorem textFrom?_charUnits (done : List Char) (char : Char) (rest : List Nat) :
    textFrom? done (charUnits char ++ rest) = textFrom? (char :: done) rest := by
  have valid : char.toNat.isValidChar := char.valid
  have back : Char.ofNat char.toNat = char := Char.ofNat_toNat char
  rw [Nat.isValidChar] at valid
  rw [charUnits]
  generalize char.toNat = code at valid back
  split
  · have notLow : isLow code = false := isLow_eq_false (by omega)
    have notHigh : isHigh code = false := isHigh_eq_false (by omega)
    simp only [List.singleton_append, textFrom?.eq_def done (code :: rest), notLow, notHigh,
      Bool.false_eq_true, if_false, back]
  · -- The two halves hold the digits of the code to the base 1024.
    have high : isHigh (0xD800 + (code - 0x10000) / 1024) = true :=
      isHigh_of_range (by omega) (by omega)
    have notLow : isLow (0xD800 + (code - 0x10000) / 1024) = false := isLow_eq_false (by omega)
    have low : isLow (0xDC00 + (code - 0x10000) % 1024) = true :=
      isLow_of_range (by omega) (by omega)
    have whole : 0x10000 + (0xD800 + (code - 0x10000) / 1024 - 0xD800) * 1024 +
        (0xDC00 + (code - 0x10000) % 1024 - 0xDC00) = code := by omega
    rw [List.cons_append, List.singleton_append, textFrom?]
    simp only [notLow, high, low, Bool.false_eq_true, if_false, if_true, whole, back]

private theorem textFrom?_units (done text : List Char) :
    textFrom? done (units text) = some (done.reverse ++ text) := by
  induction text generalizing done with
  | nil => rw [units, List.flatMap_nil, textFrom?, List.append_nil]
  | cons char text ih =>
      have split : units (char :: text) = charUnits char ++ units text := List.flatMap_cons
      rw [split, textFrom?_charUnits, ih, List.reverse_cons, List.append_assoc,
        List.singleton_append]

/-- A text written in UTF-16 is read back. -/
theorem decode?_encode (order : ByteOrder) (text : List Char) :
    decode? order (encode order text) = some text := by
  have small : ∀ unit ∈ units text, unit < 0x10000 := fun _ => lt_of_mem_units
  rcases wholeUnits_flatMap_write order small with ⟨even, whole⟩
  rw [decode?, encode, unitsFrom?_eq, if_pos even, whole]
  exact textFrom?_units [] text

/-! ## What is refused -/

/-- A unit is a surrogate, and its other half does not stand next to it. -/
def IsUnpaired (before : List Nat) (unit : Nat) (after : List Nat) : Prop :=
  isHigh unit = true ∧ after.head?.all (!isLow ·) = true ∨
    isLow unit = true ∧ before.getLast?.all (!isHigh ·) = true

/-- Some surrogate stands without its other half. -/
def HasUnpaired (units : List Nat) : Prop :=
  ∃ before unit after, units = before ++ unit :: after ∧ IsUnpaired before unit after

theorem not_hasUnpaired_nil : ¬ HasUnpaired [] := by
  rintro ⟨before, unit, after, split, -⟩
  cases before <;> cases split

/-- Units in front that are paired, and do not end in the first half of a pair, can be left out. -/
private theorem hasUnpaired_append {front rest : List Nat}
    (closed : front.getLast?.all (!isHigh ·) = true)
    (paired : ∀ before unit after, front = before ++ unit :: after →
      ¬ IsUnpaired before unit (after ++ rest)) :
    HasUnpaired (front ++ rest) ↔ HasUnpaired rest := by
  have last : ∀ before : List Nat, (front ++ before).getLast?.all (!isHigh ·) =
      before.getLast?.all (!isHigh ·) := by
    intro before
    rw [List.getLast?_append]
    cases before.getLast? with
    | none => exact closed
    | some => rfl
  constructor
  · rintro ⟨before, unit, after, split, unpaired⟩
    rcases List.append_eq_append_iff.1 split with ⟨inner, rfl, behind⟩ | ⟨inner, isFront, behind⟩
    · refine ⟨inner, unit, after, behind, ?_⟩
      rwa [IsUnpaired, last] at unpaired
    · cases inner with
      | nil =>
          rw [List.append_nil] at isFront
          subst isFront
          refine ⟨[], unit, after, behind.symm, ?_⟩
          rwa [IsUnpaired, ← List.append_nil front, last] at unpaired
      | cons first inner =>
          cases behind
          exact absurd unpaired (paired _ _ _ isFront)
  · rintro ⟨before, unit, after, rfl, unpaired⟩
    refine ⟨front ++ before, unit, after, by rw [List.append_assoc], ?_⟩
    rwa [IsUnpaired, last]

theorem not_isHigh_of_isLow {unit : Nat} (low : isLow unit = true) : isHigh unit = false := by
  rw [isLow, Bool.and_eq_true, decide_eq_true_eq, decide_eq_true_eq] at low
  exact isHigh_eq_false (by omega)

/-- Units are no text exactly if they hold a surrogate without its other half. -/
theorem textFrom?_eq_none_iff (done : List Char) (units : List Nat) :
    textFrom? done units = none ↔ HasUnpaired units := by
  fun_induction textFrom? done units with
  | case1 done => simp [not_hasUnpaired_nil]
  | case2 done unit rest low =>
      exact iff_of_true rfl ⟨[], unit, rest, rfl, .inr ⟨low, rfl⟩⟩
  | case3 done unit notLow high low rest isLow code ih =>
      have pair : HasUnpaired ([unit, low] ++ rest) ↔ HasUnpaired rest := by
        refine hasUnpaired_append ?_ fun before inner after split => ?_
        · simp [not_isHigh_of_isLow isLow]
        · cases before with
          | nil =>
              cases split
              simp [IsUnpaired, isLow, notLow]
          | cons first before =>
              cases before with
              | nil =>
                  cases split
                  simp [IsUnpaired, high, not_isHigh_of_isLow isLow]
              | cons second before =>
                  have tooLong := congrArg List.length split
                  simp at tooLong
      exact ih.trans pair.symm
  | case4 done unit notLow high low rest notLow' =>
      refine iff_of_true rfl ⟨[], unit, low :: rest, rfl, .inl ⟨high, ?_⟩⟩
      simpa using notLow'
  | case5 done unit notLow high => exact iff_of_true rfl ⟨[], unit, [], rfl, .inl ⟨high, rfl⟩⟩
  | case6 done unit rest notLow notHigh ih =>
      have single : HasUnpaired ([unit] ++ rest) ↔ HasUnpaired rest := by
        refine hasUnpaired_append ?_ fun before inner after split => ?_
        · simpa using notHigh
        · cases before with
          | nil =>
              cases split
              simp [IsUnpaired, notHigh, notLow]
          | cons first before =>
              have tooLong := congrArg List.length split
              simp at tooLong
      exact ih.trans single.symm

/-- Bytes are no text in UTF-16 exactly if there is a byte too many or a surrogate stands without
its other half. -/
theorem decode?_eq_none_iff (order : ByteOrder) (bytes : Bytes) :
    decode? order bytes = none ↔
      bytes.length % 2 = 1 ∨ HasUnpaired (wholeUnits order bytes) := by
  rw [decode?, unitsFrom?_eq]
  split
  · rename_i even
    rw [Option.bind_some, textFrom?_eq_none_iff, even]
    simp
  · rename_i odd
    exact iff_of_true rfl (.inl (by omega))

end TemplateFill.Utf16
