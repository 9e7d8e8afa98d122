import TemplateFill.Proofs.Files.Target
import TemplateFill.Proofs.Fill.TextPass

/-!
# The working copy

Everything that filling a template does to files happens at the place of the working copy.  Until
there is a copy nothing is changed, and from then on every way out removes it.
-/

namespace TemplateFill.Fill

open Files

variable {α β : Type}

/-! ## Runs -/

/-- An action that can fail is run, and then the next one if there is a value for it. -/
theorem run_bind {ε : Type} (action : ExceptT ε (StateM Files) α)
    (next : α → ExceptT ε (StateM Files) β) (files : Files) :
    (action >>= next).run.run files =
      match action.run.run files with
      | (.ok value, after) => (next value).run.run after
      | (.error error, after) => (.error error, after) := by
  rw [ExceptT.run_bind, StateT.run_bind]
  rcases action.run.run files with ⟨error | value, after⟩ <;> rfl

theorem onFiles_bind (action : ExceptT Error (StateM Files) α)
    (next : α → ExceptT Error (StateM Files) β) (files : Files) :
    onFiles (action >>= next) files =
      match onFiles action files with
      | (.ok value, after) => onFiles (next value) after
      | (.error error, after) => (.error error, after) := by
  rw [onFiles, run_bind, onFiles]
  rcases action.run.run files with ⟨error | value, after⟩ <;> rfl

theorem onFiles_ofExcept (result : Except Error α) (files : Files) :
    onFiles (ofExcept result) files = (result, files) := by
  cases result <;> rfl

theorem onFiles_read (path : String) (files : Files) :
    onFiles (use (FileAccess.read path)) files = ((files.read path).mapError .file, files) :=
  rfl

theorem onFiles_identify (path : String) (files : Files) :
    onFiles (use (FileAccess.identify path)) files =
      (((files.locate path).map Location.path).mapError .file, files) :=
  rfl

theorem onFiles_write (path : String) (content : Bytes) (files : Files) :
    onFiles (use (FileAccess.write path content)) files =
      match files.write path content with
      | .ok next => (.ok (), next)
      | .error fault => (.error (.file fault), files) := by
  show (((change (·.write path content)) files).1.mapError Error.file,
    ((change (·.write path content)) files).2) = _
  rw [change]
  cases files.write path content <;> rfl

theorem onFiles_remove (path : String) (files : Files) :
    onFiles (use (FileAccess.remove path)) files =
      match files.remove path with
      | .ok next => (.ok (), next)
      | .error fault => (.error (.file fault), files) := by
  show (((change (·.remove path)) files).1.mapError Error.file,
    ((change (·.remove path)) files).2) = _
  rw [change]
  cases files.remove path <;> rfl

/-- Opening a package needs a file that can be read, and changes none. -/
theorem onFiles_openPackage_cases (path : String) (files : Files) :
    (∃ error, onFiles (openPackage path) files = (.error error, files)) ∨
      ∃ content package, files.read path = .ok content ∧ Package.ofBytes content = .ok package ∧
        onFiles (openPackage path) files = (.ok package, files) := by
  have opened : onFiles (liftM (FileAccess.read path : StateM Files (Except FileFault Bytes)))
      files = (.ok (files.read path), files) := rfl
  rw [openPackage, onFiles_bind, opened]
  cases readable : files.read path with
  | ok content =>
      simp only [onFiles_ofExcept]
      cases unpacked : Package.ofBytes content with
      | ok package => exact .inr ⟨content, package, rfl, unpacked, rfl⟩
      | error error => exact .inl ⟨error, rfl⟩
  | error fault =>
      left
      cases fault <;> exact ⟨_, rfl⟩

/-! ## Actions at one place -/

/-- An action that changes no file but the one that a path leads to. -/
def ChangesOnly (path : String) (action : ExceptT Error (StateM Files) α) : Prop :=
  ∀ files, KeepsAllBut path files (onFiles action files).2

namespace ChangesOnly

variable {path : String}

theorem bind {action : ExceptT Error (StateM Files) α}
    {next : α → ExceptT Error (StateM Files) β} (first : ChangesOnly path action)
    (others : ∀ value, ChangesOnly path (next value)) : ChangesOnly path (action >>= next) := by
  intro files
  have before := first files
  rw [onFiles_bind]
  rcases ran : onFiles action files with ⟨error | value, after⟩
  · rw [ran] at before
    exact before
  · rw [ran] at before
    exact before.trans (others value after)

theorem pure (path : String) (value : α) :
    ChangesOnly path (pure value : ExceptT Error (StateM Files) α) :=
  fun files => .refl path files

theorem ofExcept (path : String) (result : Except Error α) :
    ChangesOnly path (ofExcept result : ExceptT Error (StateM Files) α) := by
  intro files
  rw [onFiles_ofExcept]
  exact .refl path files

theorem read (path other : String) : ChangesOnly path (use (FileAccess.read other)) :=
  fun files => .refl path files

theorem write (path : String) (content : Bytes) :
    ChangesOnly path (use (FileAccess.write path content)) := by
  intro files
  rw [onFiles_write]
  cases written : files.write path content with
  | error fault => exact .refl path files
  | ok next => exact keepsAllBut_write written

theorem openPackage (path other : String) : ChangesOnly path (openPackage other) := by
  intro files
  rcases onFiles_openPackage_cases other files with ⟨error, ran⟩ | ⟨_, package, _, _, ran⟩
  · rw [ran]
    exact .refl path files
  · rw [ran]
    exact .refl path files

theorem fillTexts (detector : Detector) (values : Values) (copy : String) :
    ChangesOnly copy (fillTexts detector values copy) := by
  refine (openPackage copy copy).bind fun package => ?_
  refine (ofExcept copy _).bind fun main => (ofExcept copy _).bind fun revised => ?_
  exact (ofExcept copy _).bind fun filled => write copy _

theorem fillChunks (idStem : String) (queue : ChunkQueue) (copy : String) :
    ChangesOnly copy (fillChunks idStem queue copy) := by
  rw [Fill.fillChunks]
  split
  · exact pure copy 0
  · refine (openPackage copy copy).bind fun package => ?_
    rcases (Package.embedChunks queue idStem).run.run package with ⟨error | count, embedded⟩
    · exact ofExcept copy (.error error)
    · exact (write copy _).bind fun _ => pure copy count

theorem fillCopy (options : FillOptions) (detector : Detector) (values : Values) (copy : String) :
    ChangesOnly copy (fillCopy options detector values copy) := by
  refine (fillTexts detector values copy).bind fun _ => (fillChunks _ _ copy).bind fun chunks => ?_
  exact (read copy copy).bind fun content => pure copy _

end ChangesOnly

/-! ## Making the copy -/

/-- Copy a template where nothing is in the way. -/
private def copyTo (template copy : String) : ExceptT Error (StateM Files) Unit := do
  let bytes ← use (FileAccess.read template)
  use (FileAccess.write copy bytes)

/-- Copy a template in the place of a file, unless that is the template. -/
private def replaceAt (template copy : String) (place : Location) :
    ExceptT Error (StateM Files) Unit := do
  let original ← use (FileAccess.identify template)
  if place.path = original then
    throw (.copyIsTemplate copy)
  use (FileAccess.remove copy)
  copyTo template copy

section Copy

variable {files : Files} {template copy : String} {content : Bytes} {location original : Location}

/-- What is done depends on whether there is something in the place of the copy. -/
private theorem onFiles_makeCopy_eq :
    onFiles (makeCopy template copy) files =
      match files.locate copy with
      | .ok place => onFiles (replaceAt template copy place) files
      | .error _ => onFiles (copyTo template copy) files := by
  have identified : onFiles (liftM (FileAccess.identify copy :
      StateM Files (Except FileFault String))) files =
      (.ok ((files.locate copy).map Location.path), files) := rfl
  rw [makeCopy, onFiles_bind, identified]
  cases files.locate copy <;> rfl

variable (readable : files.read template = .ok content)

include readable

private theorem onFiles_copyTo :
    onFiles (copyTo template copy) files =
      match files.write copy content with
      | .ok next => (.ok (), next)
      | .error fault => (.error (.file fault), files) := by
  rw [copyTo, onFiles_bind, onFiles_read, readable]
  exact onFiles_write copy content files

private theorem onFiles_replaceAt (leadsOriginal : files.target? template = some original)
    (place : Location) :
    onFiles (replaceAt template copy place) files =
      if place.path = original.path then (.error (.copyIsTemplate copy), files)
      else
        match files.remove copy with
        | .ok next => onFiles (copyTo template copy) next
        | .error fault => (.error (.file fault), files) := by
  have isOriginal : files.content? original = some content := by
    rcases read_eq_ok_iff.1 readable with ⟨place, leads, found⟩
    rw [leadsOriginal] at leads
    cases leads
    exact found
  have known : ((files.locate template).map Location.path).mapError Error.file =
      .ok original.path := by
    rw [locate_of_target? leadsOriginal, isOriginal]
    rfl
  rw [replaceAt, onFiles_bind, onFiles_identify, known]
  by_cases same : place.path = original.path
  · simp only [if_pos same]
    rfl
  · simp only [if_neg same]
    rw [onFiles_bind, onFiles_remove]
    cases files.remove copy <;> rfl

/-- A copy is made at the location that a path leads to, in the place of the file that is there;
only the template itself is not replaced. -/
theorem onFiles_makeCopy (leadsOriginal : files.target? template = some original)
    (leads : files.target? copy = some location) :
    onFiles (makeCopy template copy) files =
      if (files.content? location).isSome then
        if location.path = original.path then (.error (.copyIsTemplate copy), files)
        else (.ok (), (files.drop location).put location content)
      else (.ok (), files.put location content) := by
  rw [onFiles_makeCopy_eq, locate_of_target? leads]
  by_cases present : (files.content? location).isSome = true
  · simp only [if_pos present]
    rw [onFiles_replaceAt readable leadsOriginal]
    by_cases same : location.path = original.path
    · rw [if_pos same, if_pos same]
    · have removed : files.remove copy = .ok (files.drop location) := by
        rw [remove_of_target? leads, if_pos present]
      have keeps := keepsAllBut_remove removed
      have still : (files.drop location).read template = .ok content := by
        refine keeps.read_eq_ok ?_ readable
        rw [leads, leadsOriginal]
        rintro ⟨⟩
        exact same rfl
      have leads' : (files.drop location).target? copy = some location := by
        rw [keeps.target?_eq, leads]
      rw [if_neg same, if_neg same, removed]
      simp only [onFiles_copyTo still, write_of_target? leads']
  · simp only [if_neg present]
    rw [onFiles_copyTo readable, write_of_target? leads]

/-- Under a path that leads nowhere no copy is made. -/
theorem makeCopy_of_nowhere (leads : files.target? copy = none) :
    ∃ error, onFiles (makeCopy template copy) files = (.error error, files) := by
  rcases read_eq_ok_iff.1 readable with ⟨original, leadsOriginal, -⟩
  rcases exists_fault_of_target? leads with ⟨-, refused, fault, unremoved⟩
  rcases refused content with ⟨other, unwritten⟩
  rw [onFiles_makeCopy_eq]
  cases files.locate copy with
  | ok place =>
      simp only
      rw [onFiles_replaceAt readable leadsOriginal, unremoved]
      split <;> exact ⟨_, rfl⟩
  | error =>
      simp only
      rw [onFiles_copyTo readable, unwritten]
      exact ⟨_, rfl⟩

/-- A copy of a template that can be read is made at a place that is not the template, or nothing
is changed. -/
theorem makeCopy_cases (copy : String) :
    (∃ error, onFiles (makeCopy template copy) files = (.error error, files)) ∨
      ∃ location after, onFiles (makeCopy template copy) files = (.ok (), after) ∧
        files.target? copy = some location ∧ files.target? template ≠ some location ∧
        KeepsAllBut copy files after := by
  cases leads : files.target? copy with
  | none => exact .inl (makeCopy_of_nowhere readable leads)
  | some location =>
      rcases read_eq_ok_iff.1 readable with ⟨original, leadsOriginal, isOriginal⟩
      have put : ∀ base : Files, KeepsAllBut copy files base →
          KeepsAllBut copy files (base.put location content) := by
        intro base keeps
        have leads' : base.target? copy = some location := by rw [keeps.target?_eq, leads]
        exact keeps.trans (keepsAllBut_write (write_of_target? leads' content))
      rw [onFiles_makeCopy readable leadsOriginal leads, leadsOriginal]
      by_cases present : (files.content? location).isSome = true
      · rw [if_pos present]
        by_cases same : location.path = original.path
        · rw [if_pos same]
          exact .inl ⟨_, rfl⟩
        · rw [if_neg same]
          have removed : files.remove copy = .ok (files.drop location) := by
            rw [remove_of_target? leads, if_pos present]
          refine .inr ⟨location, _, rfl, rfl, ?_, put _ (keepsAllBut_remove removed)⟩
          rintro ⟨⟩
          exact same rfl
      · rw [if_neg present]
        refine .inr ⟨location, _, rfl, rfl, ?_, put _ (.refl copy files)⟩
        -- There is nothing in the place of the copy, but the template is there.
        rintro ⟨⟩
        rw [isOriginal] at present
        exact present rfl

end Copy

/-! ## Filling -/

/-- What is done up to the making of the working copy. -/
def upToCopy (detector : Detector) (template data copy : String) :
    ExceptT Error (StateM Files) Values := do
  let package ← openPackage template
  let bookmarks ← ofExcept (package.templateBookmarks detector 0)
  let values ← ofExcept ((Values.read bookmarks data).mapError .markup)
  makeCopy template copy
  return values

/-- From then on the copy is filled, and removed in any case. -/
private theorem fill_eq (options : FillOptions) (detector : Detector)
    (template data copy : String) :
    fill options detector template data copy =
      (do
        let values ← upToCopy detector template data copy
        withCopy copy (fillCopy options detector values copy) :
          ExceptT Error (StateM Files) FillOutcome) := by
  simp only [fill, upToCopy, bind_assoc, pure_bind]

private theorem onFiles_withCopy (copy : String) (action : ExceptT Error (StateM Files) α)
    (files : Files) :
    onFiles (withCopy copy action) files =
      ((onFiles action files).1,
        match (onFiles action files).2.remove copy with
        | .ok next => next
        | .error _ => (onFiles action files).2) := by
  rcases ran : onFiles action files with ⟨result, after⟩
  rw [onFiles] at ran
  rw [onFiles, withCopy, ExceptT.run_mk, StateT.run_bind, ran]
  show (result, (change (·.remove copy) after).2) = _
  rw [change]
  cases after.remove copy <;> rfl

/-- A template with listed bookmarks, and data that gives the values for them. -/
def HasValues (detector : Detector) (template data : String) (files : Files)
    (values : Values) : Prop :=
  ∃ content package bookmarks, files.read template = .ok content ∧
    Package.ofBytes content = .ok package ∧
    package.templateBookmarks detector 0 = .ok bookmarks ∧
    Values.read bookmarks data = .ok values

section UpToCopy

variable {detector : Detector} {template data copy : String} {files : Files} {values : Values}

/-- When there are values, what remains is to make the copy. -/
private theorem onFiles_upToCopy (has : HasValues detector template data files values) :
    onFiles (upToCopy detector template data copy) files =
      match onFiles (makeCopy template copy) files with
      | (.ok _, after) => (.ok values, after)
      | (.error error, after) => (.error error, after) := by
  rcases has with ⟨content, package, bookmarks, readable, unpacked, listed, valued⟩
  rw [upToCopy, onFiles_bind, onFiles_openPackage readable unpacked]
  simp only [onFiles_bind, onFiles_ofExcept, listed, valued, Except.mapError]
  rcases onFiles (makeCopy template copy) files with ⟨_ | _, after⟩ <;> rfl

private theorem upToCopy_of_noValues
    (noValues : ∀ values, ¬ HasValues detector template data files values) :
    ∃ error, onFiles (upToCopy detector template data copy) files = (.error error, files) := by
  rw [upToCopy, onFiles_bind]
  rcases onFiles_openPackage_cases template files with
    ⟨error, ran⟩ | ⟨content, package, readable, unpacked, ran⟩
  · rw [ran]
    exact ⟨error, rfl⟩
  · rw [ran]
    simp only [onFiles_bind, onFiles_ofExcept]
    cases listed : package.templateBookmarks detector 0 with
    | error error => exact ⟨error, rfl⟩
    | ok bookmarks =>
        cases valued : Values.read bookmarks data with
        | error error =>
            simp only [valued]
            exact ⟨.markup error, rfl⟩
        | ok values =>
            exact absurd ⟨content, package, bookmarks, readable, unpacked, listed, valued⟩
              (noValues values)

/-- A copy that is made is one of a template that can be read, and it is not in its place. -/
theorem upToCopy_cases (detector : Detector) (template data copy : String) (files : Files) :
    (∃ error, onFiles (upToCopy detector template data copy) files = (.error error, files)) ∨
      ∃ values after content location,
        onFiles (upToCopy detector template data copy) files = (.ok values, after) ∧
        files.read template = .ok content ∧ files.target? copy = some location ∧
        files.target? template ≠ some location ∧ KeepsAllBut copy files after := by
  by_cases valued : ∃ values, HasValues detector template data files values
  · rcases valued with ⟨values, has⟩
    rw [onFiles_upToCopy has]
    rcases has with ⟨content, -, -, readable, -⟩
    rcases makeCopy_cases readable copy with
      ⟨error, refused⟩ | ⟨location, after, made, leads, apart, keeps⟩
    · rw [refused]
      exact .inl ⟨error, rfl⟩
    · rw [made]
      exact .inr ⟨values, after, content, location, rfl, readable, leads, apart, keeps⟩
  · exact .inl (upToCopy_of_noValues (not_exists.1 valued))

end UpToCopy

/-- A copy that has been made is removed, whatever is done with it. -/
private theorem withCopy_removes {copy : String} {action : ExceptT Error (StateM Files) α}
    (changes : ChangesOnly copy action) {files : Files} {location : Location}
    (leads : files.target? copy = some location) :
    KeepsAllBut copy files (onFiles (withCopy copy action) files).2 ∧
      (onFiles (withCopy copy action) files).2.content? location = none := by
  have before := changes files
  have leads' : (onFiles action files).2.target? copy = some location := by
    rw [before.target?_eq, leads]
  rw [onFiles_withCopy]
  cases present : (onFiles action files).2.content? location with
  | none =>
      have refused := remove_of_target? leads'
      rw [present] at refused
      rw [refused]
      exact ⟨before, present⟩
  | some content =>
      have removed := remove_of_target? leads'
      rw [present] at removed
      rw [removed]
      refine ⟨before.trans (keepsAllBut_remove removed), ?_⟩
      exact (content?_drop _ location location).trans (if_pos rfl)

/-- The working copy is made. -/
def MakesCopy (detector : Detector) (template data copy : String) (files : Files) : Prop :=
  ∃ values after, onFiles (upToCopy detector template data copy) files = (.ok values, after)

/-- A copy is made when there are values and the path leads to a location; a file that is there
must not be the template. -/
theorem makesCopy_iff {detector : Detector} {template data copy : String} {files : Files} :
    MakesCopy detector template data copy files ↔
      (∃ values, HasValues detector template data files values) ∧
        ∃ original location, files.target? template = some original ∧
          files.target? copy = some location ∧
          ((files.content? location).isSome → location.path ≠ original.path) := by
  by_cases valued : ∃ values, HasValues detector template data files values
  · rw [and_iff_right valued]
    rcases valued with ⟨values, has⟩
    rw [MakesCopy, onFiles_upToCopy has]
    rcases has with ⟨content, -, -, readable, -⟩
    rcases read_eq_ok_iff.1 readable with ⟨original, leadsOriginal, -⟩
    cases leads : files.target? copy with
    | none =>
        rcases makeCopy_of_nowhere readable leads with ⟨error, refused⟩
        rw [refused]
        exact iff_of_false nofun nofun
    | some location =>
        rw [onFiles_makeCopy readable leadsOriginal leads]
        by_cases present : (files.content? location).isSome = true <;>
          by_cases same : location.path = original.path <;>
          simp [leadsOriginal, present, same]
  · refine iff_of_false ?_ fun both => valued both.1
    rintro ⟨values, after, made⟩
    rcases upToCopy_of_noValues (not_exists.1 valued) with ⟨error, refused⟩
    rw [refused] at made
    cases made

/-- Either nothing is changed, or a copy is made and removed again at a place that is not that of
the template. -/
theorem fill_cases (options : FillOptions) (detector : Detector) (template data copy : String)
    (files : Files) :
    (¬ MakesCopy detector template data copy files ∧ ∃ error,
      onFiles (fill options detector template data copy) files = (.error error, files)) ∨
    (MakesCopy detector template data copy files ∧ ∃ result after content location,
      onFiles (fill options detector template data copy) files = (result, after) ∧
      files.read template = .ok content ∧ files.target? copy = some location ∧
      files.target? template ≠ some location ∧ KeepsAllBut copy files after ∧
      after.content? location = none) := by
  rw [fill_eq, onFiles_bind]
  rcases upToCopy_cases detector template data copy files with
    ⟨error, refused⟩ | ⟨values, copied, content, location, made, readable, leads, apart, keeps⟩
  · left
    constructor
    · rintro ⟨values, after, made⟩
      rw [refused] at made
      cases made
    · rw [refused]
      exact ⟨error, rfl⟩
  · right
    have changes := ChangesOnly.fillCopy options detector values copy
    have leads' : copied.target? copy = some location := by rw [keeps.target?_eq, leads]
    rcases withCopy_removes changes leads' with ⟨more, removed⟩
    refine ⟨⟨values, copied, made⟩, ?_⟩
    rw [made]
    exact ⟨_, _, content, location, rfl, readable, leads, apart, keeps.trans more, removed⟩

/-- Filling a template leaves the template alone, and all files but the one in the place of the
working copy.  There is none after the copy was made, and nothing is changed before. -/
theorem fill_effects (options : FillOptions) (detector : Detector)
    (template data copy : String) (files : Files) :
    ∃ result after, onFiles (fill options detector template data copy) files = (result, after) ∧
      after.read template = files.read template ∧
      KeepsAllBut copy files after ∧
      ((∃ outcome, result = .ok outcome) ∨ MakesCopy detector template data copy files →
        ∃ location, files.target? copy = some location ∧ after.content? location = none) ∧
      (¬ MakesCopy detector template data copy files → after = files) := by
  rcases fill_cases options detector template data copy files with
    ⟨notMade, error, ran⟩ | ⟨made, result, after, content, location, ran, readable, leads, apart,
      keeps, removed⟩
  · refine ⟨_, _, ran, rfl, .refl copy files, ?_, fun _ => rfl⟩
    rintro (⟨_, ⟨⟩⟩ | made)
    exact absurd made notMade
  · refine ⟨_, _, ran, ?_, keeps, fun _ => ⟨location, leads, removed⟩, fun not => absurd made not⟩
    rw [readable]
    exact keeps.read_eq_ok (by rw [leads]; exact apart.symm) readable

end TemplateFill.Fill
