import TemplateFill.Archive.Fault
import TemplateFill.Archive.Record

/-!
# The directory of an archive

The directory is found from the end record.  There may be other bytes before and behind the
archive: the last end record counts that leads to a directory, and positions are shifted by
what stands before the archive.  Where the numbers of an end record are too short, it comes
with a locator, which leads to an end record with long numbers.
-/

namespace TemplateFill.Archive

/-- An end record. -/
structure EndRecord where
  /-- Where the record is in the file. -/
  position : Nat
  disk : Nat
  directoryDisk : Nat
  /-- The number of entries on this disk. -/
  entriesHere : Nat
  entriesTotal : Nat
  /-- Where the directory is in the archive. -/
  directory : Nat
  deriving DecidableEq, Repr

/-- A locator, which stands right before an end record. -/
structure Locator where
  /-- Where the locator is in the file. -/
  position : Nat
  /-- The disk with the directory. -/
  disk : Nat
  /-- Where the end record with long numbers is in the archive. -/
  target : Nat
  disks : Nat
  deriving DecidableEq, Repr

/-- Where a directory is. -/
structure DirectoryPlace where
  /-- The number of bytes before the archive. -/
  shift : Nat
  /-- Where the directory is in the file. -/
  start : Nat
  /-- The number of its records. -/
  count : Nat
  deriving DecidableEq, Repr

/-- The positions of a signature in the rest of a file from `position` on, the last one
first, before the positions `found`. -/
def positionsFrom (signature : Bytes) (position : Nat) (found : List Nat) : Bytes → List Nat
  | [] => found
  | byte :: rest =>
      positionsFrom signature (position + 1)
        (if signature.isPrefixOf (byte :: rest) then position :: found else found) rest

/-- The positions of a signature between `start` and `limit`, in order. -/
def positionsBetween (signature : Bytes) (start limit : Nat) (file : Bytes) : List Nat :=
  (positionsFrom signature start [] ((file.take limit).drop start)).reverse

/-- The end record at a position.  Its comment has to end within the file. -/
def endRecordAt? (file : Bytes) (position : Nat) : Option EndRecord := do
  let bytes : Bytes := file.drop position
  let disk ← bytes.field? 4 2
  let directoryDisk ← bytes.field? 6 2
  let entriesHere ← bytes.field? 8 2
  let entriesTotal ← bytes.field? 10 2
  let directory ← bytes.field? 16 4
  let comment ← bytes.field? 20 2
  guard (22 + comment ≤ bytes.length)
  return { position, disk, directoryDisk, entriesHere, entriesTotal, directory }

/-- The end records in a file, the last one first. -/
def endRecords (file : Bytes) : List EndRecord :=
  (positionsFrom endSignature 0 [] file).filterMap (endRecordAt? file)

/-- The locator of an end record, if numbers of the record may be too short. -/
def EndRecord.locator? (file : Bytes) (record : EndRecord) : Option Locator := do
  guard (record.entriesTotal = 0xFFFF ∨ record.directory = longMark)
  guard (20 ≤ record.position)
  let position := record.position - 20
  let bytes : Bytes := file.drop position
  guard (locatorSignature.isPrefixOf bytes)
  let disk ← bytes.field? 4 4
  let target ← bytes.field? 8 8
  let disks ← bytes.field? 16 4
  return { position, disk, target, disks }

/-- The end record with long numbers at a position.  It reaches up to its locator, agrees
with it, and stands behind the directory. -/
def Locator.endRecordAt? (file : Bytes) (locator : Locator) (position : Nat) :
    Option EndRecord := do
  let bytes : Bytes := file.drop position
  let size ← bytes.field? 4 8
  let disk ← bytes.field? 16 4
  let directoryDisk ← bytes.field? 20 4
  let entriesHere ← bytes.field? 24 8
  let entriesTotal ← bytes.field? 32 8
  let directory ← bytes.field? 48 8
  guard (44 ≤ size ∧ position + 12 + size = locator.position)
  guard (directoryDisk = locator.disk)
  guard (46 * entriesTotal + directory ≤ position)
  return { position, disk, directoryDisk, entriesHere, entriesTotal, directory }

/-- The place of the directory that a locator leads to. -/
def Locator.place? (file : Bytes) (locator : Locator) : Option DirectoryPlace := do
  guard (locator.disks ≤ 1)
  let record ← (positionsBetween longEndSignature locator.target locator.position file).findSome?
    (locator.endRecordAt? file)
  guard (record.disk = record.directoryDisk ∧ record.entriesHere ≤ record.entriesTotal)
  let shift := record.position - locator.target
  return { shift, start := record.directory + shift, count := record.entriesTotal }

/-- The place of the directory that an end record leads to with its own numbers.  The
directory of an archive without entries ends at the record. -/
def EndRecord.ownPlace? (file : Bytes) (record : EndRecord) : Option DirectoryPlace := do
  guard (record.disk = record.directoryDisk)
  let start ←
    if record.entriesTotal = 0 then some (max record.directory record.position)
    else (positionsBetween recordSignature record.directory record.position file).head?
  return { shift := start - record.directory, start, count := record.entriesHere }

/-- The place of the directory that an end record leads to. -/
def EndRecord.place? (file : Bytes) (record : EndRecord) : Option DirectoryPlace :=
  match record.locator? file with
  | some locator => locator.place? file
  | none => record.ownPlace? file

/-- Read `count` directory records of an archive with `shift` bytes before it.  Positions in
the file take eight bytes. -/
def readRecords? (shift : Nat) : (count : Nat) → Bytes → Option (List DirectoryRecord)
  | 0, _ => some []
  | count + 1, bytes => do
      let (record, rest) ← DirectoryRecord.read? bytes
      guard (record.header + shift < UInt64.size)
      return record :: (← readRecords? shift count rest)

/-- The directory that an end record leads to, and the number of bytes before the
archive. -/
def EndRecord.directory? (file : Bytes) (record : EndRecord) :
    Option (Nat × List DirectoryRecord) := do
  let place ← record.place? file
  let records ← readRecords? place.shift place.count (file.drop place.start)
  return (place.shift, records)

/-- The directory of an archive, and the number of bytes before the archive: the last end
record that leads to a directory counts. -/
def readDirectory (file : Bytes) : Except Fault (Nat × List DirectoryRecord) :=
  match endRecords file with
  | [] => .error .noEndRecord
  | records =>
      match records.findSome? (EndRecord.directory? file) with
      | some directory => .ok directory
      | none => .error .brokenDirectory

end TemplateFill.Archive
