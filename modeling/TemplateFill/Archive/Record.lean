import TemplateFill.Archive.Code
import TemplateFill.Archive.CodePage
import TemplateFill.Archive.Format

/-!
# Directory records

A directory record tells the name of an entry, where it is in the archive, and how it is
kept.  Behind the name it may hold extra fields.  Some of them replace what the record
tells: numbers that do not fit in four bytes, the name and the comment in UTF-8, or the
method of an encrypted entry.  A record with a broken extra field is broken itself.
-/

namespace TemplateFill.Archive

/-- A directory record. -/
structure DirectoryRecord where
  /-- The name as its bytes stand in the directory. -/
  rawName : Bytes
  name : String
  comment : String
  flags : Nat
  method : Nat
  checksum : Nat
  /-- The length of the data in the archive. -/
  size : Nat
  /-- The length that the data is said to have when it is expanded. -/
  fullSize : Nat
  /-- Where the header of the entry is in the archive. -/
  header : Nat
  /-- Whether an extra field tells how the data is encrypted. -/
  isSealed : Bool
  deriving DecidableEq, Repr

/-- An extra field of a directory record. -/
structure ExtraField where
  kind : Nat
  content : Bytes
  deriving DecidableEq, Repr

namespace ExtraField

/-- The kind of fields with numbers of eight bytes. -/
def longNumbers : Nat := 0x0001

/-- The kind of fields with three times of eight bytes. -/
def longTimes : Nat := 0x000A

/-- The kind of fields with times of four bytes, after a byte that tells which there are. -/
def shortTimes : Nat := 0x5455

/-- The kind of fields with a comment in UTF-8. -/
def utf8Comment : Nat := 0x6375

/-- The kind of fields with a name in UTF-8. -/
def utf8Name : Nat := 0x7075

/-- The kind of fields that tell how an entry is encrypted. -/
def encryption : Nat := 0x9901

/-- The number of bytes that the content of a field takes up.  It is the stated `size`, but
for times: there the first byte has a bit for each time, the size has to agree with these
bits unless it is that of one time, and only the three lowest bits are for times that are
read. -/
def contentSize? (kind size : Nat) (content : Bytes) : Option Nat :=
  if kind = shortTimes ∧ size ≠ 5 then do
    let flags := bitsOfByte (← content.head?)
    guard (size = 1 + 4 * flags.count true)
    return 1 + 4 * (flags.take 3).count true
  else some size

/-- Cut the first field off. -/
def cut? (bytes : Bytes) : Option (ExtraField × Bytes) := do
  let kind ← bytes.field? 0 2
  let stated ← bytes.field? 2 2
  let size ← contentSize? kind stated (bytes.drop 4)
  let content := (bytes.drop 4).take size
  if content.length = size then some (⟨kind, content⟩, bytes.drop (4 + size)) else none

/-- A field takes up four bytes or more. -/
theorem eq_drop_of_cut? {bytes rest : Bytes} {field : ExtraField}
    (cut : cut? bytes = some (field, rest)) : ∃ size, rest = bytes.drop (4 + size) := by
  simp only [cut?, Option.bind_eq_bind, Option.bind_eq_some_iff] at cut
  obtain ⟨_, -, _, -, size, -, found⟩ := cut
  split at found
  · simp only [Option.some.injEq, Prod.mk.injEq] at found
    exact ⟨size, found.2.symm⟩
  · simp at found

/-- The fields in the extra bytes of a record.  A single byte behind the last field does not
matter. -/
def all? (bytes : Bytes) : Option (List ExtraField) :=
  if bytes.length ≤ 1 then some []
  else
    match _cut : cut? bytes with
    | none => none
    | some (field, rest) => (all? rest).map (field :: ·)
termination_by bytes.length
decreasing_by
  obtain ⟨size, equal⟩ := eq_drop_of_cut? _cut
  rw [equal, List.length_drop]
  omega

/-- Whether the content of a field of long times is as it should be: four unused bytes, and
one attribute with three times. -/
def areLongTimes (content : Bytes) : Bool :=
  content.length == 32 && content.field? 4 2 == some 1 && content.field? 6 2 == some 24

/-- The UTF-8 text of a field that is for the text `plain`: the field holds the checksum of
the text that it is for. -/
def utf8Text? (plain content : Bytes) : Option (List Char) := do
  let sum ← content.field? 1 4
  guard (sum = checksum plain)
  (Utf8.decode (content.drop 5)).toOption

/-- The compression method in a field about encryption. -/
def sealedMethod? (content : Bytes) : Option Nat := do
  guard (content.length = 7)
  let version ← content.field? 0 2
  let vendor ← content.field? 2 2
  let strength ← content.field? 4 1
  guard ((version = 1 ∨ version = 2) ∧ vendor = 0x4541 ∧ 1 ≤ strength ∧ strength ≤ 3)
  content.field? 5 2

end ExtraField

/-- In the place of a length or position this number stands for one that is kept
elsewhere, with eight bytes. -/
def longMark : Nat := 0xFFFFFFFF

/-- A number that may be kept in a field of long numbers: it is the first of them if the
field holds all numbers, or if the short number is the mark. -/
def longNumber? (all : Bool) (number : Nat) (content : Bytes) : Option (Nat × Bytes) :=
  if all || number == longMark then
    (content.field? 0 8).map fun long => (long, content.drop 8)
  else some (number, content)

namespace DirectoryRecord

/-- A record with the numbers of a field of long numbers. -/
def withLongNumbers? (record : DirectoryRecord) (content : Bytes) : Option DirectoryRecord := do
  let all := decide (24 ≤ content.length)
  let (fullSize, content) ← longNumber? all record.fullSize content
  let (size, content) ← longNumber? all record.size content
  let (header, _) ← longNumber? all record.header content
  return { record with fullSize, size, header }

/-- A record with what an extra field tells; fields of other kinds tell nothing. -/
def withExtra? (record : DirectoryRecord) (field : ExtraField) : Option DirectoryRecord :=
  if field.kind = ExtraField.longNumbers then
    record.withLongNumbers? field.content
  else if field.kind = ExtraField.longTimes then
    if ExtraField.areLongTimes field.content then some record else none
  else if field.kind = ExtraField.utf8Comment then
    (ExtraField.utf8Text? (Utf8.encode record.comment.toList) field.content).map fun text =>
      { record with comment := String.ofList text }
  else if field.kind = ExtraField.utf8Name then
    (ExtraField.utf8Text? record.rawName field.content).map fun text =>
      { record with rawName := field.content.drop 5, name := String.ofList text }
  else if field.kind = ExtraField.encryption then
    (ExtraField.sealedMethod? field.content).map fun method =>
      { record with method, isSealed := true }
  else some record

/-- The number that stands for encryption in the place of a compression method. -/
def sealedMethod : Nat := 99

/-- The text of a name or comment: in UTF-8 if the flags tell so, or else in the code
page. -/
def decodeText (flags : Nat) (bytes : Bytes) : String :=
  String.ofList (if flags.testBit 11 then Utf8.decodeLossy bytes else decodeCodePage bytes)

/-- Read the record at the front of a byte sequence; what follows it is left. -/
def read? (bytes : Bytes) : Option (DirectoryRecord × Bytes) := do
  guard (recordSignature.isPrefixOf bytes)
  let flags ← bytes.field? 8 2
  let method ← bytes.field? 10 2
  let checksum ← bytes.field? 16 4
  let size ← bytes.field? 20 4
  let fullSize ← bytes.field? 24 4
  let nameSize ← bytes.field? 28 2
  let extraSize ← bytes.field? 30 2
  let commentSize ← bytes.field? 32 2
  let header ← bytes.field? 42 4
  guard (46 + nameSize + extraSize + commentSize ≤ bytes.length)
  let rawName := (bytes.drop 46).take nameSize
  let extra := (bytes.drop (46 + nameSize)).take extraSize
  let rawComment := (bytes.drop (46 + nameSize + extraSize)).take commentSize
  let plain : DirectoryRecord :=
    { rawName, name := decodeText flags rawName, comment := decodeText flags rawComment, flags,
      method, checksum, size, fullSize, header, isSealed := false }
  let record ← (← ExtraField.all? extra).foldlM withExtra? plain
  guard (record.method = sealedMethod → record.isSealed)
  return (record, bytes.drop (46 + nameSize + extraSize + commentSize))

end DirectoryRecord

end TemplateFill.Archive
