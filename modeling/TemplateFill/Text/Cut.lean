/-!
# Cutting texts

Texts are cut at the first or last place of a separator.  Each cut loses the
separator and nothing else.
-/

namespace TemplateFill.Text

/-- What stands before and after the first `separator`. -/
def cutFirst? (separator : Char) : List Char → Option (List Char × List Char)
  | [] => none
  | char :: rest =>
      if char = separator then
        some ([], rest)
      else
        (cutFirst? separator rest).map fun cut => (char :: cut.1, cut.2)

/-- What stands before and after the last `separator`. -/
def cutLast? (separator : Char) (text : List Char) : Option (List Char × List Char) :=
  (cutFirst? separator text.reverse).map fun cut => (cut.2.reverse, cut.1.reverse)

/-- What follows `front` in a text that starts with it. -/
def stripFront? : (front text : List Char) → Option (List Char)
  | [], text => some text
  | _ :: _, [] => none
  | char :: front, other :: text => if char = other then stripFront? front text else none

/-- What stands before and after the first occurrence of `pattern`; `before` holds,
in reverse, what has been passed already. -/
def cutPatternFrom? (pattern before : List Char) : List Char → Option (List Char × List Char)
  | [] => (stripFront? pattern []).map fun rest => (before.reverse, rest)
  | char :: rest =>
      match stripFront? pattern (char :: rest) with
      | some after => some (before.reverse, after)
      | none => cutPatternFrom? pattern (char :: before) rest

/-- What stands before and after the first occurrence of `pattern`. -/
def cutPattern? (pattern text : List Char) : Option (List Char × List Char) :=
  cutPatternFrom? pattern [] text

/-- The pieces between separators; one piece more than there are separators. -/
def pieces (separator : Char) : List Char → List (List Char)
  | [] => [[]]
  | char :: rest =>
      if char = separator then
        [] :: pieces separator rest
      else
        match pieces separator rest with
        | [] => [[char]]
        | piece :: others => (char :: piece) :: others

/-- Pieces with a separator between any two. -/
def joined (separator : Char) : List (List Char) → List Char
  | [] => []
  | [piece] => piece
  | piece :: others => piece ++ separator :: joined separator others

theorem cutFirst?_eq_some {separator : Char} {text before after : List Char}
    (cut : cutFirst? separator text = some (before, after)) :
    text = before ++ separator :: after ∧ separator ∉ before := by
  induction text generalizing before with
  | nil => simp [cutFirst?] at cut
  | cons char rest ih =>
      by_cases same : char = separator
      · simp only [cutFirst?, same, if_true, Option.some.injEq, Prod.mk.injEq] at cut
        obtain ⟨rfl, rfl⟩ := cut
        simp [same]
      · simp only [cutFirst?, same, if_false, Option.map_eq_some_iff] at cut
        obtain ⟨⟨front, back⟩, found, equal⟩ := cut
        simp only [Prod.mk.injEq] at equal
        obtain ⟨rfl, rfl⟩ := equal
        obtain ⟨rfl, fresh⟩ := ih found
        exact ⟨rfl, by simp [fresh, Ne.symm same]⟩

/-- A stripped front is a front. -/
theorem eq_append_of_stripFront? {front text after : List Char}
    (strip : stripFront? front text = some after) : text = front ++ after := by
  induction front generalizing text with
  | nil => simpa [stripFront?] using strip
  | cons char front ih =>
      cases text with
      | nil => simp [stripFront?] at strip
      | cons other text =>
          simp only [stripFront?] at strip
          split at strip
          · rename_i same
            rw [same, ih strip, List.cons_append]
          · simp at strip

/-- A front can be stripped from what starts with it. -/
@[simp] theorem stripFront?_append (front after : List Char) :
    stripFront? front (front ++ after) = some after := by
  induction front with
  | nil => rfl
  | cons char front ih => simp [stripFront?, ih]

/-- A cut at a pattern splits the text around that pattern. -/
theorem cutPatternFrom?_eq_some {pattern passed text before after : List Char}
    (cut : cutPatternFrom? pattern passed text = some (before, after)) :
    passed.reverse ++ text = before ++ pattern ++ after := by
  induction text generalizing passed with
  | nil =>
      simp only [cutPatternFrom?, Option.map_eq_some_iff] at cut
      obtain ⟨rest, found, equal⟩ := cut
      simp only [Prod.mk.injEq] at equal
      obtain ⟨rfl, rfl⟩ := equal
      rw [eq_append_of_stripFront? found, List.append_assoc]
  | cons char rest ih =>
      simp only [cutPatternFrom?] at cut
      split at cut
      · rename_i tail found
        simp only [Option.some.injEq, Prod.mk.injEq] at cut
        obtain ⟨rfl, rfl⟩ := cut
        rw [eq_append_of_stripFront? found, List.append_assoc]
      · rw [← ih cut]
        simp

/-- A cut at a pattern splits the text around that pattern. -/
theorem cutPattern?_eq_some {pattern text before after : List Char}
    (cut : cutPattern? pattern text = some (before, after)) :
    text = before ++ pattern ++ after := by
  simpa using cutPatternFrom?_eq_some cut

theorem pieces_ne_nil (separator : Char) (text : List Char) : pieces separator text ≠ [] := by
  cases text with
  | nil => simp [pieces]
  | cons char rest =>
      simp only [pieces]
      split
      · simp
      · split <;> simp

/-- Joining the pieces of a text gives the text back. -/
theorem joined_pieces (separator : Char) (text : List Char) :
    joined separator (pieces separator text) = text := by
  induction text with
  | nil => rfl
  | cons char rest ih =>
      simp only [pieces]
      split
      · rename_i same
        cases split : pieces separator rest with
        | nil => exact absurd split (pieces_ne_nil separator rest)
        | cons piece others =>
            rw [split] at ih
            simp [joined, ih, same]
      · cases split : pieces separator rest with
        | nil => exact absurd split (pieces_ne_nil separator rest)
        | cons piece others =>
            rw [split] at ih
            cases others <;> simp_all [joined]

end TemplateFill.Text
