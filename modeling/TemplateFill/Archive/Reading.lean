import TemplateFill.Archive.Directory
import TemplateFill.Archive.Inflate

/-!
# Reading archives

The entries of an archive are those that its directory names.  Folders are among them, but
they hold nothing.
-/

namespace TemplateFill.Archive

/-- Put a record in the place of an earlier one of the same name, or else at the end. -/
def addRecord (records : List DirectoryRecord) (record : DirectoryRecord) :
    List DirectoryRecord :=
  if records.any (·.name == record.name) then
    records.map fun other => if other.name = record.name then record else other
  else records ++ [record]

/-- The bytes of an archive from the data of an entry on, which stand behind its header. -/
def dataFrom? (archive : Bytes) (record : DirectoryRecord) : Option Bytes := do
  let header : Bytes := archive.drop record.header
  guard (headerSignature.isPrefixOf header)
  let nameSize ← header.field? 26 2
  let extraSize ← header.field? 28 2
  return header.drop (30 + nameSize + extraSize)

/-- The compression methods that can be read. -/
inductive Method where
  | stored
  | deflated
  deriving DecidableEq, Repr

/-- The method with a number. -/
def method? : Nat → Option Method
  | 0 => some .stored
  | 8 => some .deflated
  | _ => none

/-- Undo a compression. -/
def Method.expand? : Method → Bytes → Option Bytes
  | .stored, data => some data
  | .deflated, data => inflate? data

/-- Whether an entry stands for a folder: its name ends in a slash of either kind. -/
def isFolder (name : String) : Bool :=
  name.toList.getLast?.any fun char => char == '/' || char == '\\'

/-- Whether an entry is encrypted. -/
def DirectoryRecord.isEncrypted (record : DirectoryRecord) : Bool :=
  record.flags.testBit 0 || record.isSealed

/-- Read the entry of a directory record; folders have none. -/
def readEntry (archive : Bytes) (record : DirectoryRecord) : Except Fault (Option Entry) :=
  if record.isEncrypted then .error .encrypted
  else
    match dataFrom? archive record, method? record.method with
    | none, _ => .error .brokenEntry
    | some _, none => .error (.unsupportedMethod record.method)
    | some data, some method =>
        if isFolder record.name then .ok none
        else
          match method.expand? (data.take record.size) with
          | none => .error .damagedData
          | some content =>
              if checksum content = record.checksum then .ok (some ⟨record.name, content⟩)
              else .error .wrongChecksum

/-- Read the entries of directory records, up to the first fault. -/
def readEntries (archive : Bytes) : List DirectoryRecord → Except Fault (List Entry)
  | [] => .ok []
  | record :: rest => do
      let entry ← readEntry archive record
      return entry.toList ++ (← readEntries archive rest)

/-- The entries of an archive.  Of several with one name the last counts, in the place of
the first. -/
def read (bytes : Bytes) : Except Fault (List Entry) := do
  let (shift, records) ← readDirectory bytes
  readEntries (bytes.drop shift) (records.foldl addRecord [])

end TemplateFill.Archive
