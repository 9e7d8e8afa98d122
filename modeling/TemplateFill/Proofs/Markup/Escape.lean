import TemplateFill.Markup.Reference

/-!
# Escaped texts are read back

A character is written as a reference to its name or as itself, and never as one of the brackets
and quotes that divide markup.  So an escaped text can stand in a tag or between tags, and reading
its references gives the text.
-/

namespace TemplateFill.Markup

/-- A character is written as a reference to its name or as itself. -/
theorem escapeChar_cases (char : Char) :
    (∃ name, (name, char) ∈ namedReferences ∧ escapeChar char = '&' :: name ++ [';']) ∨
      char ∉ ['<', '>', '&', '\'', '"'] ∧ escapeChar char = [char] := by
  unfold escapeChar
  split
  · exact .inl ⟨['l', 't'], by decide, rfl⟩
  · exact .inl ⟨['g', 't'], by decide, rfl⟩
  · exact .inl ⟨['a', 'm', 'p'], by decide, rfl⟩
  · exact .inl ⟨['a', 'p', 'o', 's'], by decide, rfl⟩
  · exact .inl ⟨['q', 'u', 'o', 't'], by decide, rfl⟩
  · exact .inr ⟨by simp_all, rfl⟩

@[simp] theorem escape_nil : escape [] = [] := rfl

@[simp] theorem escape_cons (char : Char) (text : List Char) :
    escape (char :: text) = escapeChar char ++ escape text := rfl

/-- The brackets and quotes that divide markup are not in an escaped text. -/
theorem not_mem_escape {char : Char} (divides : char ∈ ['<', '>', '\'', '"'])
    (text : List Char) : char ∉ escape text := by
  have letters : ∀ entry ∈ namedReferences,
      ('&' :: entry.1 ++ [';']).all (· ∉ ['<', '>', '\'', '"']) = true := by decide
  induction text with
  | nil => exact List.not_mem_nil
  | cons first text ih =>
      rw [escape_cons, List.mem_append, not_or]
      refine ⟨?_, ih⟩
      rcases escapeChar_cases first with ⟨name, known, named⟩ | ⟨free, plain⟩
      · rw [named]
        intro member
        exact of_decide_eq_true (List.all_eq_true.1 (letters _ known) char member) divides
      · rw [plain, List.mem_singleton]
        rintro rfl
        have subset : ['<', '>', '\'', '"'] ⊆ ['<', '>', '&', '\'', '"'] := by decide
        exact free (subset divides)

/-! ## References -/

/-- A reference ends at its first semicolon. -/
theorem cutReference?_append {stops name : List Char}
    (free : ∀ char ∈ name, char ≠ ';' ∧ char ∉ stops) (rest : List Char) :
    cutReference? stops (name ++ ';' :: rest) = some (name, rest) := by
  induction name with
  | nil => simp [cutReference?]
  | cons char name ih =>
      rw [List.forall_mem_cons] at free
      rw [List.cons_append, cutReference?, if_neg free.1.1, if_neg free.1.2, ih free.2]
      rfl

/-- The names of references hold neither a semicolon nor what may not stand before it. -/
theorem cutReference?_of_known {name : List Char} {char : Char}
    (known : (name, char) ∈ namedReferences) {stops : List Char} (among : stops ⊆ ['&', '<'])
    (rest : List Char) : cutReference? stops (name ++ ';' :: rest) = some (name, rest) := by
  have letters : ∀ entry ∈ namedReferences,
      entry.1.all (fun letter => letter ≠ ';' ∧ letter ∉ ['&', '<']) = true := by decide
  apply cutReference?_append
  intro letter member
  have free := of_decide_eq_true (List.all_eq_true.1 (letters _ known) letter member)
  exact ⟨free.1, fun stop => free.2 (among stop)⟩

theorem resolveReference?_of_known {name : List Char} {char : Char}
    (known : (name, char) ∈ namedReferences) : resolveReference? name = some char := by
  have each : ∀ entry ∈ namedReferences, resolveReference? entry.1 = some entry.2 := by decide
  exact each _ known

theorem readReference_of_known {name : List Char} {char : Char}
    (known : (name, char) ∈ namedReferences) (start : Nat) :
    readReference start name = .ok char := by
  simp only [namedReferences, List.mem_cons, Prod.mk.injEq, List.not_mem_nil, or_false] at known
  rcases known with ⟨rfl, rfl⟩ | ⟨rfl, rfl⟩ | ⟨rfl, rfl⟩ | ⟨rfl, rfl⟩ | ⟨rfl, rfl⟩ <;> rfl

/-! ## Attribute values -/

section Unescape

variable {total offset : Nat} {done rest : List Char} {char : Char}

private theorem unescapeFrom_plain (free : char ≠ '&') :
    unescapeFrom total offset done (char :: rest) =
      unescapeFrom total (offset + char.utf8Size) (char :: done) rest := by
  rw [unescapeFrom, if_neg free]

private theorem unescapeFrom_named {name : List Char} (known : (name, char) ∈ namedReferences) :
    ∃ next, unescapeFrom total offset done ('&' :: name ++ [';'] ++ rest) =
      unescapeFrom total next (char :: done) rest := by
  have stops : ['&'] ⊆ ['&', '<'] := by simp
  have cut := cutReference?_of_known known stops rest
  rw [List.cons_append, List.cons_append, List.append_assoc, List.singleton_append, unescapeFrom,
    if_pos rfl]
  split
  · rename_i name' after cut'
    rw [cut] at cut'
    cases cut'
    rw [readReference_of_known known]
    exact ⟨_, rfl⟩
  · rename_i cut'
    rw [cut] at cut'
    cases cut'

private theorem unescapeFrom_escape (text : List Char) :
    unescapeFrom total offset done (escape text) = .ok (done.reverse ++ text) := by
  induction text generalizing offset done with
  | nil => rw [escape_nil, unescapeFrom, List.append_nil]
  | cons char text ih =>
      have grown : done.reverse ++ char :: text = (char :: done).reverse ++ text := by simp
      rw [escape_cons, grown]
      rcases escapeChar_cases char with ⟨name, known, named⟩ | ⟨free, plain⟩
      · rw [named]
        rcases unescapeFrom_named known with ⟨next, step⟩
        rw [step, ih]
      · rw [plain, List.singleton_append, unescapeFrom_plain (fun same => free (by simp [same])),
          ih]

end Unescape

/-- An escaped attribute value is read back. -/
theorem unescape_escape (value : List Char) : unescape (escape value) = .ok value :=
  unescapeFrom_escape value

end TemplateFill.Markup
