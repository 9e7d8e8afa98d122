import TemplateFill.Files.Fault
import TemplateFill.Text.Bytes
import TemplateFill.Text.Cut

/-!
# File trees

Folders and files in memory, with a folder that relative paths start from.  A path is
followed step by step: each step but the last has to lead into a folder that is there.
-/

namespace TemplateFill

open TemplateFill.Text

/-- The names of the folders from the top down to a file or folder, and its own. -/
abbrev Location := List String

/-- Folders and files. -/
structure Files where
  /-- Where relative paths start. -/
  here : Location
  /-- The folders that there are, besides the one at the top. -/
  folders : List Location
  files : List (Location × Bytes)
  deriving DecidableEq, Repr

/-- What a path leads to. -/
inductive Place where
  | folder (location : Location)
  | file (location : Location)
  /-- Nothing, in a folder that is there; the path may be one that only a folder can have. -/
  | vacant (location : Location) (asFolder : Bool)
  deriving DecidableEq, Repr

namespace Files

/-- Whether there is a folder at a location. -/
def isFolder (files : Files) (location : Location) : Bool :=
  location.isEmpty || files.folders.contains location

/-- The content of the file at a location. -/
def content? (files : Files) (location : Location) : Option Bytes := files.files.lookup location

/-- What is at a location. -/
def placeAt (files : Files) (location : Location) : Place :=
  if files.isFolder location then .folder location
  else if (files.content? location).isSome then .file location
  else .vacant location false

/-- Follow steps from a folder. -/
def walk (files : Files) (folder : Location) : List String → Except FileFault Place
  | [] => .ok (.folder folder)
  | step :: rest =>
      if step = ".." then files.walk folder.dropLast rest
      else
        match files.placeAt (folder ++ [step]), rest with
        | place, [] => .ok place
        | .folder location, rest => files.walk location rest
        | .file _, _ => .error .notDirectory
        | .vacant .., _ => .error .notFound

/-- The steps of a path; empty steps and dots lead nowhere. -/
def steps (path : String) : List String :=
  ((pieces '/' path.toList).filter fun step => step ≠ [] ∧ step ≠ ['.']).map String.ofList

/-- Whether a path is written as that of a folder: with a slash at the end, or a dot for its
last step. -/
def isFolderPath (path : String) : Bool :=
  match (pieces '/' path.toList).getLast? with
  | some last => last == [] || last == ['.']
  | none => false

/-- What a path leads to.  The empty path leads nowhere. -/
def resolve (files : Files) (path : String) : Except FileFault Place :=
  if path = "" then .error .notFound
  else do
    let start := if path.toList.head? = some '/' then [] else files.here
    match ← files.walk start (steps path), isFolderPath path with
    | .file _, true => throw .notDirectory
    | .vacant location _, true => return .vacant location true
    | place, _ => return place

/-- The content of the file that a path leads to. -/
def read (files : Files) (path : String) : Except FileFault Bytes := do
  match ← files.resolve path with
  | .folder _ => throw .isDirectory
  | .vacant .. => throw .notFound
  | .file location => return (files.content? location).getD []

/-- The files with other content at a location. -/
def put (files : Files) (location : Location) (content : Bytes) : Files :=
  { files with files := (location, content) :: files.files.filter (·.1 ≠ location) }

/-- The files without one at a location. -/
def drop (files : Files) (location : Location) : Files :=
  { files with files := files.files.filter (·.1 ≠ location) }

/-- The files with other content where a path leads; a file that is not there is made. -/
def write (files : Files) (path : String) (content : Bytes) : Except FileFault Files := do
  match ← files.resolve path with
  | .folder _ => throw .isDirectory
  | .vacant _ true => throw .isDirectory
  | .vacant location false => return files.put location content
  | .file location => return files.put location content

/-- The files without the one that a path leads to. -/
def remove (files : Files) (path : String) : Except FileFault Files := do
  match ← files.resolve path with
  | .folder _ => throw .isDirectory
  | .vacant .. => throw .notFound
  | .file location => return files.drop location

/-- The location of what is where a path leads. -/
def locate (files : Files) (path : String) : Except FileFault Location := do
  match ← files.resolve path with
  | .folder location => return location
  | .file location => return location
  | .vacant .. => throw .notFound

/-- Leaving out a location leaves out its content and nothing else. -/
theorem lookup_filter_ne (entries : List (Location × Bytes)) (location other : Location) :
    (entries.filter fun entry => entry.1 ≠ location).lookup other =
      if other = location then none else entries.lookup other := by
  induction entries with
  | nil => simp
  | cons entry rest ih =>
      obtain ⟨place, bytes⟩ := entry
      by_cases left : place = location
      · rw [List.filter_cons_of_neg (by simp [left]), ih, List.lookup_cons, left]
        by_cases same : other = location
        · simp [same]
        · have apart : (other == location) = false := by simp [same]
          simp [same, apart]
      · rw [List.filter_cons_of_pos (by simp [left]), List.lookup_cons, List.lookup_cons, ih]
        by_cases same : other = location
        · have apart : (other == place) = false := by simp [same, Ne.symm left]
          simp [same, same ▸ apart]
        · simp [same]

/-- Content that has been put at a location is there, and nothing else has changed. -/
theorem content?_put (files : Files) (location other : Location) (content : Bytes) :
    (files.put location content).content? other =
      if other = location then some content else files.content? other := by
  simp only [put, content?, List.lookup_cons, lookup_filter_ne]
  by_cases same : other = location
  · simp [same]
  · have apart : (other == location) = false := by simp [same]
    simp [same, apart]

/-- A file that has been dropped is not there, and nothing else has changed. -/
theorem content?_drop (files : Files) (location other : Location) :
    (files.drop location).content? other =
      if other = location then none else files.content? other :=
  lookup_filter_ne files.files location other

end Files

end TemplateFill
