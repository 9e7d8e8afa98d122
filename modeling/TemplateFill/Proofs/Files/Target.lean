import TemplateFill.Files.Basic

/-!
# Where paths lead

Which location a path means as that of a file depends on the folders alone, so no change of files
makes a path lead elsewhere.  Reading, writing and removing under a path are operations at this
location, and all other paths lead to the contents of before.
-/

namespace TemplateFill

/-- The location of a file, or of one that could be made there. -/
def Place.fileAt? : Place → Option Location
  | .file location => some location
  | .vacant location false => some location
  | .vacant _ true => none
  | .folder _ => none

namespace Files

/-- The location that a path means as that of a file, whether there is one or not. -/
def target? (files : Files) (path : String) : Option Location :=
  (files.resolve path).toOption.bind Place.fileAt?

variable {files after last : Files} {path : String} {location : Location}

/-! ## Folders alone tell -/

theorem placeAt_of_isFolder (isFolder : files.isFolder location = true) :
    files.placeAt location = .folder location :=
  if_pos isFolder

/-- Where there is no folder, there is a file or room for one. -/
theorem fileAt?_placeAt (notFolder : ¬ files.isFolder location = true) :
    (files.placeAt location).fileAt? = some location ∧
      files.placeAt location =
        if (files.content? location).isSome then .file location else .vacant location false := by
  have same : files.placeAt location =
      if (files.content? location).isSome then .file location else .vacant location false :=
    if_neg notFolder
  refine ⟨?_, same⟩
  rw [same]
  split <;> rfl

private theorem walk_up (files : Files) (folder : Location) (rest : List String) :
    files.walk folder (".." :: rest) = files.walk folder.dropLast rest := by
  rw [walk.eq_def]
  exact if_pos rfl

private theorem walk_last {folder : Location} {step : String} (down : step ≠ "..") :
    files.walk folder [step] = .ok (files.placeAt (folder ++ [step])) := by
  rw [walk.eq_def]
  exact if_neg down

/-- A step before the last one has to lead into a folder. -/
private theorem walk_next {folder : Location} {step next : String} {rest : List String}
    (down : step ≠ "..") :
    (files.walk folder (step :: next :: rest)).toOption =
      if files.isFolder (folder ++ [step]) then
        (files.walk (folder ++ [step]) (next :: rest)).toOption
      else none := by
  rw [walk.eq_def]
  simp only [if_neg down]
  by_cases isFolder : files.isFolder (folder ++ [step]) = true
  · rw [if_pos isFolder, placeAt_of_isFolder isFolder]
  · rw [if_neg isFolder, (fileAt?_placeAt isFolder).2]
    cases (files.content? (folder ++ [step])).isSome <;> rfl

private theorem fileAt?_walk_congr
    (folders : ∀ location, after.isFolder location = files.isFolder location)
    (steps : List String) (folder : Location) :
    (after.walk folder steps).toOption.bind Place.fileAt? =
      (files.walk folder steps).toOption.bind Place.fileAt? := by
  induction steps generalizing folder with
  | nil => rfl
  | cons step rest ih =>
      by_cases up : step = ".."
      · rw [up, walk_up, walk_up]
        exact ih folder.dropLast
      · have same := folders (folder ++ [step])
        cases rest with
        | nil =>
            rw [walk_last up, walk_last up]
            by_cases isFolder : files.isFolder (folder ++ [step]) = true
            · rw [placeAt_of_isFolder isFolder, placeAt_of_isFolder (same.trans isFolder)]
            · have notFolder : ¬ after.isFolder (folder ++ [step]) = true := by rwa [same]
              exact (fileAt?_placeAt notFolder).1.trans (fileAt?_placeAt isFolder).1.symm
        | cons =>
            rw [walk_next up, walk_next up, same]
            split
            · exact ih _
            · rfl

private theorem placeAt_of_walk {steps : List String} {folder : Location} {place : Place}
    (walked : (files.walk folder steps).toOption = some place)
    (isAt : place.fileAt? = some location) :
    place = files.placeAt location ∧ ¬ files.isFolder location = true := by
  induction steps generalizing folder with
  | nil =>
      cases walked
      cases isAt
  | cons step rest ih =>
      by_cases up : step = ".."
      · rw [up, walk_up] at walked
        exact ih walked
      · cases rest with
        | nil =>
            rw [walk_last up] at walked
            cases walked
            by_cases isFolder : files.isFolder (folder ++ [step]) = true
            · rw [placeAt_of_isFolder isFolder] at isAt
              cases isAt
            · rw [(fileAt?_placeAt isFolder).1] at isAt
              cases isAt
              exact ⟨rfl, isFolder⟩
        | cons =>
            rw [walk_next up] at walked
            split at walked
            · exact ih walked
            · cases walked

/-- A path leads to the end of its steps, unless it is written as that of a folder. -/
private theorem target?_eq (files : Files) (path : String) :
    files.target? path =
      if path = "" ∨ isFolderPath path = true then none
      else (files.walk (if path.toList.head? = some '/' then [] else files.here)
        (steps path)).toOption.bind Place.fileAt? := by
  rw [target?, resolve]
  by_cases empty : path = ""
  · rw [if_pos empty, if_pos (.inl empty)]
    rfl
  · simp only [if_neg empty]
    cases files.walk (if path.toList.head? = some '/' then [] else files.here) (steps path) with
    | error fault => exact (ite_self none).symm
    | ok place =>
        cases asFolder : isFolderPath path with
        | false =>
            rw [if_neg (by simp [empty])]
            cases place <;> rfl
        | true =>
            rw [if_pos (.inr rfl)]
            cases place <;> rfl

/-- No path leads elsewhere if the folders are the same. -/
theorem target?_congr (here : after.here = files.here) (folders : after.folders = files.folders)
    (path : String) : after.target? path = files.target? path := by
  have same : ∀ location, after.isFolder location = files.isFolder location := by
    intro location
    rw [isFolder, isFolder, folders]
  rw [target?_eq, target?_eq, here]
  split
  · rfl
  · exact fileAt?_walk_congr same _ _

/-! ## Operations at a location -/

/-- What a path that leads to a location means. -/
private theorem resolve_of_target? (leads : files.target? path = some location) :
    files.resolve path = .ok
      (if (files.content? location).isSome then .file location else .vacant location false) := by
  rw [target?_eq] at leads
  split at leads
  · cases leads
  · rename_i plain
    rw [not_or, Bool.not_eq_true] at plain
    rcases Option.bind_eq_some_iff.1 leads with ⟨place, walked, isAt⟩
    rcases placeAt_of_walk walked isAt with ⟨rfl, notFolder⟩
    rw [resolve, if_neg plain.1]
    cases ended : files.walk (if path.toList.head? = some '/' then [] else files.here)
        (steps path) with
    | error fault =>
        rw [ended] at walked
        cases walked
    | ok place =>
        rw [ended] at walked
        cases walked
        simp only [ended, plain.2]
        rw [← (fileAt?_placeAt notFolder).2]
        cases files.placeAt location <;> rfl

section Leads

variable (leads : files.target? path = some location)

include leads

theorem read_of_target? :
    files.read path =
      match files.content? location with
      | some content => .ok content
      | none => .error .notFound := by
  rw [read, resolve_of_target? leads]
  cases found : files.content? location with
  | none => rfl
  | some content =>
      simp only [Option.isSome_some, if_true, bind, Except.bind, found]
      rfl

theorem write_of_target? (content : Bytes) :
    files.write path content = .ok (files.put location content) := by
  rw [write, resolve_of_target? leads]
  cases (files.content? location).isSome <;> rfl

theorem remove_of_target? :
    files.remove path =
      if (files.content? location).isSome then .ok (files.drop location)
      else .error .notFound := by
  rw [remove, resolve_of_target? leads]
  cases (files.content? location).isSome <;> rfl

theorem locate_of_target? :
    files.locate path =
      if (files.content? location).isSome then .ok location else .error .notFound := by
  rw [locate, resolve_of_target? leads]
  cases (files.content? location).isSome <;> rfl

end Leads

section Nowhere

variable (leads : files.target? path = none)

include leads

/-- Under a path that leads nowhere no file is read, written or removed. -/
theorem exists_fault_of_target? :
    (∃ fault, files.read path = .error fault) ∧
      (∀ content, ∃ fault, files.write path content = .error fault) ∧
      ∃ fault, files.remove path = .error fault := by
  rw [target?] at leads
  simp only [read, write, remove]
  cases resolved : files.resolve path with
  | error fault => exact ⟨⟨fault, rfl⟩, fun _ => ⟨fault, rfl⟩, ⟨fault, rfl⟩⟩
  | ok place =>
      rw [resolved] at leads
      cases place with
      | file => cases leads
      | folder => exact ⟨⟨_, rfl⟩, fun _ => ⟨_, rfl⟩, ⟨_, rfl⟩⟩
      | vacant location asFolder =>
          cases asFolder with
          | false => cases leads
          | true => exact ⟨⟨_, rfl⟩, fun _ => ⟨_, rfl⟩, ⟨_, rfl⟩⟩

end Nowhere

/-- What can be read under a path is the content at its location. -/
theorem read_eq_ok_iff {content : Bytes} :
    files.read path = .ok content ↔
      ∃ location, files.target? path = some location ∧ files.content? location = some content := by
  cases leads : files.target? path with
  | none =>
      rcases (exists_fault_of_target? leads).1 with ⟨fault, refused⟩
      simp [refused]
  | some location =>
      rw [read_of_target? leads]
      cases found : files.content? location <;> simp [found]

/-! ## Changes under one path -/

/-- After a change all is as before, but for the file that a path leads to. -/
structure KeepsAllBut (path : String) (files after : Files) : Prop where
  here : after.here = files.here
  folders : after.folders = files.folders
  content : ∀ location, files.target? path ≠ some location →
    after.content? location = files.content? location

namespace KeepsAllBut

theorem refl (path : String) (files : Files) : KeepsAllBut path files files :=
  ⟨rfl, rfl, fun _ _ => rfl⟩

theorem target?_eq (keeps : KeepsAllBut path files after) (other : String) :
    after.target? other = files.target? other :=
  target?_congr keeps.here keeps.folders other

theorem trans (keeps : KeepsAllBut path files after) (more : KeepsAllBut path after last) :
    KeepsAllBut path files last := by
  refine ⟨more.here.trans keeps.here, more.folders.trans keeps.folders, ?_⟩
  intro location elsewhere
  have elsewhere' : after.target? path ≠ some location := by rwa [keeps.target?_eq]
  rw [more.content location elsewhere', keeps.content location elsewhere]

/-- What can be read under a path that leads elsewhere is what could be read before. -/
theorem read_eq_ok {other : String} {content : Bytes} (keeps : KeepsAllBut path files after)
    (apart : files.target? path ≠ files.target? other) (readable : files.read other = .ok content) :
    after.read other = .ok content := by
  rcases read_eq_ok_iff.1 readable with ⟨location, leads, found⟩
  rw [leads] at apart
  refine read_eq_ok_iff.2 ⟨location, ?_, ?_⟩
  · rw [keeps.target?_eq, leads]
  · rw [keeps.content location apart, found]

end KeepsAllBut

theorem keepsAllBut_write {content : Bytes} (written : files.write path content = .ok after) :
    KeepsAllBut path files after := by
  cases leads : files.target? path with
  | none =>
      rcases (exists_fault_of_target? leads).2.1 content with ⟨fault, refused⟩
      rw [written] at refused
      cases refused
  | some location =>
      rw [write_of_target? leads] at written
      cases written
      refine ⟨rfl, rfl, fun other elsewhere => ?_⟩
      rw [leads, ne_eq, Option.some.injEq] at elsewhere
      rw [content?_put, if_neg (Ne.symm elsewhere)]

theorem keepsAllBut_remove (removed : files.remove path = .ok after) :
    KeepsAllBut path files after := by
  cases leads : files.target? path with
  | none =>
      rcases (exists_fault_of_target? leads).2.2 with ⟨fault, refused⟩
      rw [removed] at refused
      cases refused
  | some location =>
      rw [remove_of_target? leads] at removed
      split at removed
      · cases removed
        refine ⟨rfl, rfl, fun other elsewhere => ?_⟩
        rw [leads, ne_eq, Option.some.injEq] at elsewhere
        rw [content?_drop, if_neg (Ne.symm elsewhere)]
      · cases removed

end Files

end TemplateFill
