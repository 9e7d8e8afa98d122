import TemplateFill.Archive.Checksum
import TemplateFill.Text.Utf8

/-!
# The format of archives

An archive holds for each entry a header and the data, then a directory with a record for
each entry, and an end record that tells where the directory is.  Every header and record
starts with a signature.
-/

namespace TemplateFill.Archive

/-- A named file in an archive. -/
structure Entry where
  name : String
  content : Bytes
  deriving DecidableEq, Repr

/-- The start of the header of an entry. -/
def headerSignature : Bytes := [0x50, 0x4B, 0x03, 0x04]

/-- The start of a directory record. -/
def recordSignature : Bytes := [0x50, 0x4B, 0x01, 0x02]

/-- The start of the end record. -/
def endSignature : Bytes := [0x50, 0x4B, 0x05, 0x06]

/-- The start of an end record with long numbers. -/
def longEndSignature : Bytes := [0x50, 0x4B, 0x06, 0x06]

/-- The start of a locator, which leads to an end record with long numbers. -/
def locatorSignature : Bytes := [0x50, 0x4B, 0x06, 0x07]

/-- The bit of the flags of an entry that is set if its name is in UTF-8. -/
def utf8Flag : Nat := 2048

/-- The version of the format that a reader of a written archive needs. -/
def neededVersion : Nat := 20

/-- The first day that a date can tell: year, month and day take seven, four and five
bits. -/
def firstDay : Nat := 33

/-- What the header and the directory record of a stored entry have in common. -/
def commonFields (entry : Entry) : Bytes :=
  let size := entry.content.length
  let nameSize := (Utf8.encode entry.name.toList).length
  Bytes.ofNat 2 neededVersion ++ Bytes.ofNat 2 utf8Flag ++ Bytes.ofNat 2 0 ++ Bytes.ofNat 2 0 ++
    Bytes.ofNat 2 firstDay ++ Bytes.ofNat 4 (checksum entry.content) ++ Bytes.ofNat 4 size ++
    Bytes.ofNat 4 size ++ Bytes.ofNat 2 nameSize ++ Bytes.ofNat 2 0

/-- A stored entry: header, name and data. -/
def writeEntry (entry : Entry) : Bytes :=
  headerSignature ++ commonFields entry ++ Utf8.encode entry.name.toList ++ entry.content

/-- The directory record of an entry whose header is at `offset`. -/
def writeRecord (offset : Nat) (entry : Entry) : Bytes :=
  recordSignature ++ Bytes.ofNat 2 neededVersion ++ commonFields entry ++ Bytes.ofNat 2 0 ++
    Bytes.ofNat 2 0 ++ Bytes.ofNat 2 0 ++ Bytes.ofNat 4 0 ++ Bytes.ofNat 4 offset ++
    Utf8.encode entry.name.toList

/-- The directory of entries of which the first is at `offset`. -/
def writeDirectory (offset : Nat) : List Entry → Bytes
  | [] => []
  | entry :: rest =>
      writeRecord offset entry ++ writeDirectory (offset + (writeEntry entry).length) rest

/-- The end record of an archive with `count` entries and a directory of `size` bytes at
`offset`. -/
def writeEnd (count size offset : Nat) : Bytes :=
  endSignature ++ Bytes.ofNat 2 0 ++ Bytes.ofNat 2 0 ++ Bytes.ofNat 2 count ++
    Bytes.ofNat 2 count ++ Bytes.ofNat 4 size ++ Bytes.ofNat 4 offset ++ Bytes.ofNat 2 0

/-- The archive of some entries, all stored as they are. -/
def write (entries : List Entry) : Bytes :=
  let data := entries.flatMap writeEntry
  let directory := writeDirectory 0 entries
  data ++ directory ++ writeEnd entries.length directory.length data.length

end TemplateFill.Archive
