import TemplateFill.Text.Utf8

/-!
# UTF-8 is read back

Reading a text that has been written in UTF-8 gives the text: the bytes of a character are a
front that holds this character, whatever follows them.
-/

namespace TemplateFill.Utf8

section EncodeChar

variable {code : Nat}

private theorem isTail_of_lt {low : Nat} (small : low < 64) : isTail (0x80 + low) = true := by
  simp only [isTail, Bool.and_eq_true, decide_eq_true_eq]
  omega

private theorem isSecondOfThree_of_code (large : 0x800 ≤ code)
    (scalar : code < 0xD800 ∨ 0xDFFF < code) :
    isSecondOfThree (0xE0 + code / 4096) (0x80 + code / 64 % 64) = true := by
  have tail : isTail (0x80 + code / 64 % 64) = true := isTail_of_lt (Nat.mod_lt _ (by decide))
  simp only [isSecondOfThree, tail, Bool.true_and, Bool.and_eq_true, Bool.or_eq_true,
    bne_iff_ne, ne_eq, decide_eq_true_eq]
  omega

private theorem isSecondOfFour_of_code (large : 0x10000 ≤ code) (small : code < 0x110000) :
    isSecondOfFour (0xF0 + code / 262144) (0x80 + code / 4096 % 64) = true := by
  have tail : isTail (0x80 + code / 4096 % 64) = true := isTail_of_lt (Nat.mod_lt _ (by decide))
  simp only [isSecondOfFour, tail, Bool.true_and, Bool.and_eq_true, Bool.or_eq_true,
    bne_iff_ne, ne_eq, decide_eq_true_eq]
  omega

end EncodeChar

/-- The code point of a character is one of those that UTF-8 has bytes for. -/
private theorem scalar_of_char (char : Char) :
    (char.toNat < 0xD800 ∨ 0xDFFF < char.toNat) ∧ char.toNat < 0x110000 := by
  have valid : char.toNat.isValidChar := char.valid
  rw [Nat.isValidChar] at valid
  omega

/-- The bytes of a character are a front that holds the character. -/
theorem front_encodeChar (char : Char) (rest : Bytes) :
    ∃ lead tail, encodeChar char = lead :: tail ∧
      front lead (tail ++ rest) = .code char.toNat rest := by
  rcases scalar_of_char char with ⟨scalar, small⟩
  rw [encodeChar]
  generalize char.toNat = code at scalar small
  -- The four lengths of an encoding, each with the range of its lead.
  split
  · refine ⟨_, _, rfl, ?_⟩
    have lead : (UInt8.ofNat code).toNat = code := by simp; omega
    simp only [front, lead, List.nil_append]
    rw [if_pos (by omega)]
  split
  · refine ⟨_, _, rfl, ?_⟩
    have lead : (UInt8.ofNat (0xC0 + code / 64)).toNat = 0xC0 + code / 64 := by simp; omega
    have second : (UInt8.ofNat (0x80 + code % 64)).toNat = 0x80 + code % 64 := by simp; omega
    simp only [front, lead, second, List.cons_append, List.nil_append]
    rw [if_neg (by omega), if_neg (by omega), if_pos (by omega),
      if_pos (isTail_of_lt (Nat.mod_lt _ (by decide)))]
    exact congrArg (Front.code · rest) (by omega)
  split
  · refine ⟨_, _, rfl, ?_⟩
    have lead : (UInt8.ofNat (0xE0 + code / 4096)).toNat = 0xE0 + code / 4096 := by simp; omega
    have second : (UInt8.ofNat (0x80 + code / 64 % 64)).toNat = 0x80 + code / 64 % 64 := by
      simp; omega
    have third : (UInt8.ofNat (0x80 + code % 64)).toNat = 0x80 + code % 64 := by simp; omega
    simp only [front, lead, second, third, List.cons_append, List.nil_append]
    rw [if_neg (by omega), if_neg (by omega), if_neg (by omega), if_pos (by omega),
      if_pos (isSecondOfThree_of_code (by omega) scalar),
      if_pos (isTail_of_lt (Nat.mod_lt _ (by decide)))]
    exact congrArg (Front.code · rest) (by omega)
  · refine ⟨_, _, rfl, ?_⟩
    have lead : (UInt8.ofNat (0xF0 + code / 262144)).toNat = 0xF0 + code / 262144 := by
      simp; omega
    have second : (UInt8.ofNat (0x80 + code / 4096 % 64)).toNat = 0x80 + code / 4096 % 64 := by
      simp; omega
    have third : (UInt8.ofNat (0x80 + code / 64 % 64)).toNat = 0x80 + code / 64 % 64 := by
      simp; omega
    have fourth : (UInt8.ofNat (0x80 + code % 64)).toNat = 0x80 + code % 64 := by simp; omega
    simp only [front, lead, second, third, fourth, List.cons_append, List.nil_append]
    rw [if_neg (by omega), if_neg (by omega), if_neg (by omega), if_neg (by omega),
      if_pos (by omega), if_pos (isSecondOfFour_of_code (by omega) small),
      if_pos (isTail_of_lt (Nat.mod_lt _ (by decide))),
      if_pos (isTail_of_lt (Nat.mod_lt _ (by decide)))]
    exact congrArg (Front.code · rest) (by omega)

/-- The front of an encoded text holds its first character. -/
theorem exists_encode_cons (char : Char) (text : List Char) :
    ∃ lead rest, encode (char :: text) = lead :: rest ∧
      front lead rest = .code char.toNat (encode text) := by
  rcases front_encodeChar char (encode text) with ⟨lead, tail, bytes, read⟩
  refine ⟨lead, tail ++ encode text, ?_, read⟩
  rw [encode, List.flatMap_cons, bytes, List.cons_append]
  rfl

private theorem decodeFrom_of_front {size : Nat} {done : List Char} {lead : UInt8}
    {rest after : Bytes} {value : Nat} (read : front lead rest = .code value after) :
    decodeFrom size done (lead :: rest) = decodeFrom size (Char.ofNat value :: done) after := by
  rw [decodeFrom]
  split
  · rename_i value' after' read'
    rw [read] at read'
    cases read'
    rfl
  all_goals
    rename_i read'
    rw [read] at read'
    cases read'

private theorem decodeFrom_encode (size : Nat) (done text : List Char) :
    decodeFrom size done (encode text) = .ok (done.reverse ++ text) := by
  induction text generalizing done with
  | nil =>
      rw [encode, List.flatMap_nil, decodeFrom, List.append_nil]
  | cons char text ih =>
      rcases exists_encode_cons char text with ⟨lead, rest, bytes, read⟩
      rw [bytes, decodeFrom_of_front read, ih, Char.ofNat_toNat, List.reverse_cons,
        List.append_assoc, List.singleton_append]

/-- A text written in UTF-8 is read back. -/
theorem decode_encode (text : List Char) : decode (encode text) = .ok text :=
  decodeFrom_encode _ [] text

private theorem decodeLossyFrom_of_front {done : List Char} {lead : UInt8} {rest after : Bytes}
    {value : Nat} (read : front lead rest = .code value after) :
    decodeLossyFrom done (lead :: rest) = decodeLossyFrom (Char.ofNat value :: done) after := by
  rw [decodeLossyFrom]
  split
  · rename_i value' after' read'
    rw [read] at read'
    cases read'
    rfl
  all_goals
    rename_i read'
    rw [read] at read'
    cases read'

private theorem decodeLossyFrom_encode (done text : List Char) :
    decodeLossyFrom done (encode text) = done.reverse ++ text := by
  induction text generalizing done with
  | nil =>
      rw [encode, List.flatMap_nil, decodeLossyFrom, List.append_nil]
  | cons char text ih =>
      rcases exists_encode_cons char text with ⟨lead, rest, bytes, read⟩
      rw [bytes, decodeLossyFrom_of_front read, ih, Char.ofNat_toNat, List.reverse_cons,
        List.append_assoc, List.singleton_append]

/-- No character of a text written in UTF-8 is replaced. -/
theorem decodeLossy_encode (text : List Char) : decodeLossy (encode text) = text :=
  decodeLossyFrom_encode [] text

end TemplateFill.Utf8
