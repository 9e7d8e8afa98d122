/-!
# Faults of archives
-/

namespace TemplateFill.Archive

/-- Why an archive cannot be read. -/
inductive Fault where
  /-- What should be an archive cannot be read like a file. -/
  | unreadable
  | noEndRecord
  | brokenDirectory
  | brokenEntry
  | unsupportedMethod (method : Nat)
  | encrypted
  /-- The compressed data of an entry breaks off or breaks the rules of its method. -/
  | damagedData
  /-- The data of an entry does not have the checksum that the directory gives. -/
  | wrongChecksum
  deriving DecidableEq, Repr

/-- Whether the fault lies in the data of an entry, and not in the structure of the
archive. -/
def Fault.inData : Fault → Bool
  | .damagedData => true
  | .wrongChecksum => true
  | _ => false

/-- The wording of a fault. -/
def Fault.message : Fault → String
  | .unreadable => "i/o error: Is a directory (os error 21)"
  | .noEndRecord => "invalid Zip archive: Could not find EOCD"
  | .brokenDirectory => "invalid Zip archive: Invalid Central Directory header"
  | .brokenEntry => "invalid Zip archive: Invalid local file header"
  | .unsupportedMethod _ => "unsupported Zip archive: Compression method not supported"
  | .encrypted => "unsupported Zip archive: Password required to decrypt file"
  | .damagedData => "corrupt deflate stream"
  | .wrongChecksum => "Invalid checksum"

end TemplateFill.Archive
