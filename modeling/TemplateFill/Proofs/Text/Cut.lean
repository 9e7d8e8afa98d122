import TemplateFill.Text.Cut

/-!
# Separators

A text is cut where its separators are, and texts without separators can be joined and cut again.
-/

namespace TemplateFill.Text

variable {separator : Char} {before after text : List Char}

theorem cutFirst?_append (free : separator ∉ before) (after : List Char) :
    cutFirst? separator (before ++ separator :: after) = some (before, after) := by
  induction before with
  | nil => simp [cutFirst?]
  | cons char before ih =>
      rw [List.mem_cons, not_or] at free
      rw [List.cons_append, cutFirst?, if_neg (Ne.symm free.1), ih free.2]
      rfl

theorem cutFirst?_eq_none (free : separator ∉ text) : cutFirst? separator text = none := by
  induction text with
  | nil => rfl
  | cons char text ih =>
      rw [List.mem_cons, not_or] at free
      rw [cutFirst?, if_neg (Ne.symm free.1), ih free.2]
      rfl

theorem cutLast?_append (before : List Char) (free : separator ∉ after) :
    cutLast? separator (before ++ separator :: after) = some (before, after) := by
  have backward : (before ++ separator :: after).reverse =
      after.reverse ++ separator :: before.reverse := by simp
  rw [cutLast?, backward, cutFirst?_append (by simpa using free)]
  simp

theorem cutLast?_eq_none (free : separator ∉ text) : cutLast? separator text = none := by
  rw [cutLast?, cutFirst?_eq_none (by simpa using free)]
  rfl

/-! ## Pieces -/

theorem not_mem_of_mem_pieces {piece : List Char} (member : piece ∈ pieces separator text) :
    separator ∉ piece := by
  induction text generalizing piece with
  | nil =>
      rw [pieces, List.mem_singleton] at member
      rw [member]
      exact List.not_mem_nil
  | cons char rest ih =>
      rw [pieces] at member
      split at member
      · rcases List.mem_cons.1 member with rfl | later
        · exact List.not_mem_nil
        · exact ih later
      · rename_i other
        split at member
        · rw [List.mem_singleton.1 member, List.mem_singleton]
          exact Ne.symm other
        · rename_i first others split
          rw [split] at ih
          rcases List.mem_cons.1 member with rfl | later
          · rw [List.mem_cons, not_or]
            exact ⟨Ne.symm other, ih List.mem_cons_self⟩
          · exact ih (List.mem_cons_of_mem _ later)

theorem pieces_of_free (free : separator ∉ text) : pieces separator text = [text] := by
  induction text with
  | nil => rfl
  | cons char text ih =>
      rw [List.mem_cons, not_or] at free
      rw [pieces, if_neg (Ne.symm free.1), ih free.2]

theorem pieces_append (separator : Char) (before after : List Char) :
    pieces separator (before ++ separator :: after) =
      pieces separator before ++ pieces separator after := by
  induction before with
  | nil => simp [pieces]
  | cons char before ih =>
      rw [List.cons_append, pieces, pieces, ih]
      split
      · rfl
      · cases split : pieces separator before with
        | nil => exact absurd split (pieces_ne_nil separator before)
        | cons first others => rfl

theorem joined_cons_cons (separator : Char) (part next : List Char) (rest : List (List Char)) :
    joined separator (part :: next :: rest) =
      part ++ separator :: joined separator (next :: rest) := rfl

/-- Pieces without separators come back when they have been joined. -/
theorem pieces_joined {parts : List (List Char)} (some : parts ≠ [])
    (free : ∀ part ∈ parts, separator ∉ part) :
    pieces separator (joined separator parts) = parts := by
  induction parts with
  | nil => exact absurd rfl some
  | cons part rest ih =>
      rw [List.forall_mem_cons] at free
      cases rest with
      | nil => exact pieces_of_free free.1
      | cons next rest =>
          rw [joined_cons_cons, pieces_append, pieces_of_free free.1,
            ih (List.cons_ne_nil _ _) free.2, List.singleton_append]

theorem joined_concat {front : List (List Char)} (some : front ≠ []) (last : List Char) :
    joined separator (front ++ [last]) = joined separator front ++ separator :: last := by
  induction front with
  | nil => exact absurd rfl some
  | cons part rest ih =>
      cases rest with
      | nil => rfl
      | cons next rest =>
          have more := ih (List.cons_ne_nil next rest)
          rw [List.cons_append] at more
          rw [List.cons_append, List.cons_append, joined_cons_cons, more, joined_cons_cons,
            List.append_assoc, List.cons_append]

end TemplateFill.Text
