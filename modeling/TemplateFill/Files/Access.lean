import TemplateFill.Files.Basic

/-!
# Access to files

The operations on files that filling a template needs.  They can be run on a file tree in
memory.
-/

namespace TemplateFill

/-- Actions that can use files. -/
class FileAccess (m : Type → Type) where
  /-- The content of a file. -/
  read : String → m (Except FileFault Bytes)
  /-- Make a file, or replace its content. -/
  write : String → Bytes → m (Except FileFault Unit)
  /-- Remove a file. -/
  remove : String → m (Except FileFault Unit)
  /-- A name for the file or folder at a path that does not depend on the path; there is
  none if nothing is there. -/
  identify : String → m (Except FileFault String)

/-- Make a change to files, unless it is refused. -/
def Files.change (update : Files → Except FileFault Files) : StateM Files (Except FileFault Unit) :=
  fun files =>
    match update files with
    | .ok next => (.ok (), next)
    | .error fault => (.error fault, files)

/-- The path of a location from the top. -/
def Location.path (location : Location) : String :=
  "/" ++ String.intercalate "/" location

instance : FileAccess (StateM Files) where
  read path := fun files => (files.read path, files)
  write path content := Files.change (·.write path content)
  remove path := Files.change (·.remove path)
  identify path := fun files => ((files.locate path).map Location.path, files)

end TemplateFill
