/-!
# Faults of the file system
-/

namespace TemplateFill

/-- Why a file cannot be read, written or removed. -/
inductive FileFault where
  | notFound
  | isDirectory
  | notDirectory
  /-- A text was asked for, and the bytes are not UTF-8. -/
  | notText
  /-- Any other fault, in the words of the system. -/
  | other (text : String)
  deriving DecidableEq, Repr

/-- The wording of a fault. -/
def FileFault.message : FileFault → String
  | .notFound => "No such file or directory (os error 2)"
  | .isDirectory => "Is a directory (os error 21)"
  | .notDirectory => "Not a directory (os error 20)"
  | .notText => "stream did not contain valid UTF-8"
  | .other text => text

end TemplateFill
