import TemplateFill.CommandLine.Run

/-!
# The program

Command lines are run on the files of the system.
-/

namespace TemplateFill

/-- What kind of fault the system has met. -/
def FileFault.ofSystem (error : IO.Error) : FileFault :=
  match error with
  | .noFileOrDirectory .. => .notFound
  | .noSuchThing .. => .notFound
  | .inappropriateType _ 20 _ => .notDirectory
  | .inappropriateType _ 21 _ => .isDirectory
  | unknown => .other (toString unknown)

/-- Do something with the files of the system. -/
def withSystemFiles {α : Type} (action : IO α) : IO (Except FileFault α) := do
  try
    return .ok (← action)
  catch error =>
    return .error (FileFault.ofSystem error)

instance : FileAccess IO where
  read path := withSystemFiles do return (← IO.FS.readBinFile path).toList
  write path content := withSystemFiles (IO.FS.writeBinFile path ⟨content.toArray⟩)
  remove path := withSystemFiles (IO.FS.removeFile path)
  identify path := withSystemFiles do return toString (← IO.FS.realPath path)

end TemplateFill

/-- Run a command line and print its answer. -/
def main (arguments : List String) : IO UInt32 := do
  let report ← TemplateFill.CommandLine.run arguments
  IO.print report.output
  IO.eprint report.errors
  return UInt32.ofNat report.exitCode
