import TemplateFill.Files.Basic

/-!
# Reading what has been written

Writing to a file that is there makes no path lead elsewhere, so the file is read again under the
same path, and its content is what was written.
-/

namespace TemplateFill.Files

variable {files other : Files} {folder location : Location} {path : String}

/-! ## Places -/

theorem walk_congr (places : ∀ location, files.placeAt location = other.placeAt location)
    (folder : Location) (steps : List String) :
    files.walk folder steps = other.walk folder steps := by
  induction steps generalizing folder with
  | nil => rfl
  | cons step rest ih =>
      rw [walk.eq_def, walk.eq_def other]
      simp only [places, ih]
      cases rest with
      | nil => rfl
      | cons => cases other.placeAt (folder ++ [step]) <;> simp only [ih]

/-- Where a path leads is told by the places. -/
theorem resolve_congr (here : files.here = other.here)
    (places : ∀ location, files.placeAt location = other.placeAt location) (path : String) :
    files.resolve path = other.resolve path := by
  simp only [resolve, here, walk_congr places]

/-- A file is placed where there is content and no folder. -/
theorem isSome_of_placeAt (place : files.placeAt folder = .file location) :
    (files.content? location).isSome = true := by
  rw [placeAt] at place
  split at place
  · cases place
  · split at place
    · cases place
      assumption
    · cases place

theorem isSome_of_walk {steps : List String}
    (walked : files.walk folder steps = .ok (.file location)) :
    (files.content? location).isSome = true := by
  fun_induction walk files folder steps with
  | case1 => cases walked
  | case2 _ _ ih => exact ih walked
  | case3 => exact isSome_of_placeAt (Except.ok.inj walked)
  | case4 =>
      rename_i ih
      exact ih walked
  | case5 | case6 => cases walked

theorem isSome_of_resolve (resolved : files.resolve path = .ok (.file location)) :
    (files.content? location).isSome = true := by
  rw [resolve] at resolved
  split at resolved
  · cases resolved
  · cases walked : files.walk (if path.toList.head? = some '/' then [] else files.here)
        (steps path) with
    | error fault =>
        simp only [walked] at resolved
        cases resolved
    | ok place =>
        simp only [walked] at resolved
        -- Only a file is a place that is passed on as a file.
        cases place <;> cases asFolder : isFolderPath path <;> rw [asFolder] at resolved <;>
          cases resolved
        exact isSome_of_walk walked

/-! ## Writing -/

/-- Where there is a file a file is put in its place. -/
theorem placeAt_put (present : (files.content? location).isSome = true) (content : Bytes)
    (other : Location) : (files.put location content).placeAt other = files.placeAt other := by
  have same : ((files.put location content).content? other).isSome =
      (files.content? other).isSome := by
    rw [content?_put]
    split
    · rename_i here
      rw [here, present]
      rfl
    · rfl
  rw [placeAt, placeAt, same]
  rfl

/-- A file that can be read can be written, and what was written is read again. -/
theorem exists_write {before : Bytes} (readable : files.read path = .ok before) (content : Bytes) :
    ∃ next, files.write path content = .ok next ∧ next.read path = .ok content := by
  rw [read] at readable
  cases resolved : files.resolve path with
  | error fault =>
      rw [resolved] at readable
      cases readable
  | ok place =>
      rw [resolved] at readable
      cases place with
      | folder | vacant => cases readable
      | file location =>
          have places := placeAt_put (isSome_of_resolve resolved) content
          refine ⟨files.put location content, ?_, ?_⟩
          · rw [write, resolved]
            rfl
          · have same : (files.put location content).resolve path = files.resolve path := by
              apply resolve_congr
              · rfl
              · exact places
            rw [read, same, resolved]
            simp only [bind, Except.bind, content?_put]
            rfl

end TemplateFill.Files
