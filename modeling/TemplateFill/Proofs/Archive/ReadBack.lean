import Mathlib
import TemplateFill.Archive.Reading
import TemplateFill.Package.Archived
import TemplateFill.Proofs.Text.Utf8

/-!
# Archives are read back

The archive of some entries is read back as these entries if all its numbers fit in their
fields, the names are distinct, and no entry stands for a folder.  Reading finds the end record
first, then the directory, and then the data of each entry: each step reads what stands at a
position, so there is a lemma for what each piece of an archive holds, whatever follows it.
-/

namespace TemplateFill

namespace Bytes

/-- A number is read back from a field that it fits in. -/
theorem littleEndian_ofNat {width number : Nat} (small : number < 256 ^ width) :
    littleEndian (ofNat width number) = number := by
  induction width generalizing number with
  | zero =>
      rw [Nat.pow_zero] at small
      exact (Nat.lt_one_iff.1 small).symm
  | succ width ih =>
      have rest : number / 256 < 256 ^ width := by
        rw [Nat.pow_succ] at small
        exact Nat.div_lt_of_lt_mul (by omega)
      rw [ofNat, littleEndian, ih rest, UInt8.toNat_ofNat']
      omega

variable {front rest : List UInt8} {offset width number : Nat}

/-- A field behind some bytes is a field of what follows them. -/
theorem field?_append (behind : front.length ≤ offset) :
    field? (front ++ rest) offset width = field? rest (offset - front.length) width := by
  rw [field?, field?, List.drop_append, List.drop_of_length_le behind, List.nil_append]

theorem field?_ofNat_append (small : number < 256 ^ width) :
    field? (ofNat width number ++ rest) 0 width = some number := by
  have taken : (ofNat width number ++ rest).take width = ofNat width number :=
    List.take_left' (length_ofNat width number)
  rw [field?, List.drop_zero, taken, if_pos (length_ofNat width number), littleEndian_ofNat small]

theorem field?_ofNat (small : number < 256 ^ width) :
    field? (ofNat width number) 0 width = some number := by
  rw [← List.append_nil (ofNat width number)]
  exact field?_ofNat_append small

theorem field?_eq_none {bytes : Bytes} (short : bytes.length < offset + width) (pos : 0 < width) :
    field? bytes offset width = none := by
  rw [field?, if_neg]
  rw [List.length_take, List.length_drop]
  omega

end Bytes

namespace Archive

open Bytes

/-! ## Pieces of an archive -/

@[simp] theorem length_headerSignature : headerSignature.length = 4 := by decide

@[simp] theorem length_recordSignature : recordSignature.length = 4 := by decide

@[simp] theorem length_endSignature : endSignature.length = 4 := by decide

@[simp] theorem length_commonFields (entry : Entry) : (commonFields entry).length = 26 := by
  simp [commonFields]

/-- The numbers of an entry fit in their fields. -/
structure Entry.Fits (entry : Entry) : Prop where
  content : entry.content.length < 256 ^ 4
  name : (Utf8.encode entry.name.toList).length < 256 ^ 2

theorem checksum_lt (bytes : Bytes) : checksum bytes < 256 ^ 4 :=
  UInt32.toNat_lt _

/-- The record that the directory has for an entry whose header is at `offset`. -/
def recordOf (offset : Nat) (entry : Entry) : DirectoryRecord where
  rawName := Utf8.encode entry.name.toList
  name := entry.name
  comment := ""
  flags := utf8Flag
  method := 0
  checksum := checksum entry.content
  size := entry.content.length
  fullSize := entry.content.length
  header := offset
  isSealed := false

/-- The records of entries of which the first is at `offset`. -/
def recordsFrom (offset : Nat) : List Entry → List DirectoryRecord
  | [] => []
  | entry :: rest =>
      recordOf offset entry :: recordsFrom (offset + (writeEntry entry).length) rest

section Entry

variable {entry : Entry} {offset : Nat}

/-- The numbers that a directory record tells, each in its field. -/
theorem fields_writeRecord (fits : entry.Fits) (small : offset < 256 ^ 4) (rest : Bytes) :
    let field? := field? (writeRecord offset entry ++ rest)
    field? 8 2 = some utf8Flag ∧ field? 10 2 = some 0 ∧
      field? 16 4 = some (checksum entry.content) ∧ field? 20 4 = some entry.content.length ∧
      field? 24 4 = some entry.content.length ∧
      field? 28 2 = some (Utf8.encode entry.name.toList).length ∧ field? 30 2 = some 0 ∧
      field? 32 2 = some 0 ∧ field? 42 4 = some offset := by
  have ⟨content, name⟩ := fits
  have sum : checksum entry.content < 256 ^ 4 := checksum_lt entry.content
  have flagged : utf8Flag < 256 ^ 2 := by decide
  simp (disch := first | assumption | simp) only [writeRecord, commonFields, List.append_assoc,
    length_recordSignature, length_ofNat, Nat.reduceSub, field?_append, field?_ofNat_append,
    and_self]

theorem drop_writeRecord (rest : Bytes) :
    (writeRecord offset entry ++ rest).drop 46 = Utf8.encode entry.name.toList ++ rest := by
  simp [writeRecord, List.drop_append, List.drop_of_length_le]

theorem decodeText_utf8Flag (text : List Char) :
    DirectoryRecord.decodeText utf8Flag (Utf8.encode text) = String.ofList text := by
  rw [DirectoryRecord.decodeText, if_pos (by decide), Utf8.decodeLossy_encode]

/-- A directory record is read back. -/
theorem read?_writeRecord (fits : entry.Fits) (small : offset < 256 ^ 4) (rest : Bytes) :
    DirectoryRecord.read? (writeRecord offset entry ++ rest) =
      some (recordOf offset entry, rest) := by
  have signed : recordSignature.isPrefixOf (writeRecord offset entry ++ rest) = true := by
    simp [writeRecord]
  rcases fields_writeRecord fits small rest with
    ⟨flags, method, sum, size, fullSize, nameSize, extraSize, commentSize, header⟩
  have behind : (writeRecord offset entry ++ rest).drop 46 = _ := drop_writeRecord rest
  have after : (writeRecord offset entry ++ rest).drop
      (46 + (Utf8.encode entry.name.toList).length) = rest := by
    rw [← List.drop_drop, behind, List.drop_left]
  have long : 46 + (Utf8.encode entry.name.toList).length ≤
      (writeRecord offset entry).length + rest.length := by
    simp [writeRecord]
    omega
  have plain : ExtraField.all? [] = some [] := by
    rw [ExtraField.all?, if_pos (by decide)]
  have open' : 0 ≠ DirectoryRecord.sealedMethod := by decide
  have name := decodeText_utf8Flag entry.name.toList
  have comment : DirectoryRecord.decodeText utf8Flag [] = "" := decodeText_utf8Flag []
  simp [DirectoryRecord.read?, guard, signed, flags, method, sum, size, fullSize, nameSize,
    extraSize, commentSize, header, behind, after, long, plain, open', name, comment, recordOf]

/-- The data of an entry is found behind its header. -/
theorem dataFrom?_writeEntry (fits : entry.Fits) (before rest : Bytes) :
    dataFrom? (before ++ (writeEntry entry ++ rest)) (recordOf before.length entry) =
      some (entry.content ++ rest) := by
  have ⟨_, name⟩ := fits
  have signed : headerSignature.isPrefixOf (writeEntry entry ++ rest) = true := by
    simp [writeEntry]
  have nameSize : field? (writeEntry entry ++ rest) 26 2 =
      some (Utf8.encode entry.name.toList).length := by
    simp (disch := first | assumption | simp) only [writeEntry, commonFields, List.append_assoc,
      length_headerSignature, length_ofNat, Nat.reduceSub, field?_append, field?_ofNat_append]
  have extraSize : field? (writeEntry entry ++ rest) 28 2 = some 0 := by
    simp (disch := first | assumption | simp) only [writeEntry, commonFields, List.append_assoc,
      length_headerSignature, length_ofNat, Nat.reduceSub, field?_append, field?_ofNat_append]
  have behind : (writeEntry entry ++ rest).drop 30 =
      Utf8.encode entry.name.toList ++ (entry.content ++ rest) := by
    simp [writeEntry, List.drop_append, List.drop_of_length_le]
  have after : (writeEntry entry ++ rest).drop (30 + (Utf8.encode entry.name.toList).length) =
      entry.content ++ rest := by
    rw [← List.drop_drop, behind, List.drop_left]
  simp [dataFrom?, recordOf, guard, signed, nameSize, extraSize, after]

theorem readEntry_writeEntry (fits : entry.Fits) (file : isFolder entry.name = false)
    (before rest : Bytes) :
    readEntry (before ++ (writeEntry entry ++ rest)) (recordOf before.length entry) =
      .ok (some entry) := by
  have bare : ((recordOf before.length entry).isEncrypted) = false :=
    show (utf8Flag.testBit 0 || false) = false by decide
  have stored : method? (recordOf before.length entry).method = some .stored := rfl
  have taken : (entry.content ++ rest).take (recordOf before.length entry).size = entry.content :=
    List.take_left
  have named : isFolder (recordOf before.length entry).name = false := file
  have summed : checksum entry.content = (recordOf before.length entry).checksum := rfl
  simp only [readEntry, bare, dataFrom?_writeEntry fits, stored, named, taken, Method.expand?,
    if_pos summed]
  rfl

end Entry

/-! ## The directory -/

section Directory

variable {entries : List Entry} {offset : Nat}

theorem readRecords?_writeDirectory (fits : ∀ entry ∈ entries, entry.Fits)
    (small : offset + (entries.flatMap writeEntry).length < 256 ^ 4) (rest : Bytes) :
    readRecords? 0 entries.length (writeDirectory offset entries ++ rest) =
      some (recordsFrom offset entries) := by
  induction entries generalizing offset with
  | nil => rfl
  | cons entry entries ih =>
      rw [List.forall_mem_cons] at fits
      rw [List.flatMap_cons, List.length_append, ← Nat.add_assoc] at small
      have near : offset < 256 ^ 4 := by omega
      have read := read?_writeRecord fits.1 near
        (writeDirectory (offset + (writeEntry entry).length) entries ++ rest)
      have inFile : (recordOf offset entry).header + 0 < UInt64.size :=
        Nat.lt_trans near (by decide)
      rw [List.length_cons, readRecords?, writeDirectory, List.append_assoc, read]
      simp only [Option.bind_eq_bind, Option.bind_some, guard, if_pos inFile, ih fits.2 small]
      rfl

/-- The names of the records are those of the entries. -/
theorem names_recordsFrom :
    (recordsFrom offset entries).map (·.name) = entries.map (·.name) := by
  induction entries generalizing offset with
  | nil => rfl
  | cons entry entries ih => rw [recordsFrom, List.map_cons, List.map_cons, ih, recordOf]

/-- Records with distinct names are all kept. -/
theorem foldl_addRecord (records : List DirectoryRecord) {more : List DirectoryRecord}
    (distinct : ((records ++ more).map (·.name)).Nodup) :
    more.foldl addRecord records = records ++ more := by
  induction more generalizing records with
  | nil => rw [List.foldl_nil, List.append_nil]
  | cons record more ih =>
      have new : records.any (·.name == record.name) = false := by
        rw [List.map_append, List.map_cons, List.nodup_append] at distinct
        simp only [List.any_eq_false, beq_iff_eq]
        intro other mem same
        exact distinct.2.2 _ (List.mem_map_of_mem mem) _ List.mem_cons_self same
      rw [List.append_cons] at distinct ⊢
      rw [List.foldl_cons, addRecord, if_neg (by simp [new]), ih _ distinct]

theorem readEntries_recordsFrom (fits : ∀ entry ∈ entries, entry.Fits)
    (files : ∀ entry ∈ entries, isFolder entry.name = false) (before rest : Bytes) :
    readEntries (before ++ (entries.flatMap writeEntry ++ rest))
      (recordsFrom before.length entries) = .ok entries := by
  induction entries generalizing before with
  | nil => rfl
  | cons entry entries ih =>
      rw [List.forall_mem_cons] at fits files
      have later := ih fits.2 files.2 (before ++ writeEntry entry)
      rw [List.length_append, List.append_assoc] at later
      rw [recordsFrom, readEntries, List.flatMap_cons, List.append_assoc,
        readEntry_writeEntry fits.1 files.1, later]
      rfl

end Directory

/-! ## Where the directory is -/

section Positions

variable (signature : Bytes) (position : Nat) (found : List Nat)

/-- The positions in the rest of a file come before those found so far. -/
theorem exists_positionsFrom (bytes : Bytes) :
    ∃ later, positionsFrom signature position found bytes = later ++ found ∧
      ∀ other ∈ later, position ≤ other := by
  induction bytes generalizing position found with
  | nil => exact ⟨[], rfl, nofun⟩
  | cons byte bytes ih =>
      rcases ih (position + 1) (if signature.isPrefixOf (byte :: bytes) then position :: found
        else found) with ⟨later, same, behind⟩
      rw [positionsFrom, same]
      split
      · refine ⟨later ++ [position], (List.append_assoc later [position] found).symm, ?_⟩
        intro other mem
        rcases List.mem_append.1 mem with mem | mem
        · exact Nat.le_of_succ_le (behind other mem)
        · exact Nat.le_of_eq (List.mem_singleton.1 mem).symm
      · exact ⟨later, rfl, fun other mem => Nat.le_of_succ_le (behind other mem)⟩

/-- The search goes on behind some bytes. -/
theorem exists_positionsFrom_append (before rest : Bytes) :
    ∃ found', positionsFrom signature position found (before ++ rest) =
      positionsFrom signature (position + before.length) found' rest := by
  induction before generalizing position found with
  | nil => exact ⟨found, rfl⟩
  | cons byte before ih =>
      rcases ih (position + 1) (if signature.isPrefixOf (byte :: (before ++ rest)) then
        position :: found else found) with ⟨found', same⟩
      refine ⟨found', ?_⟩
      rw [List.cons_append, positionsFrom, same, List.length_cons, Nat.add_assoc,
        Nat.add_comm 1]

/-- A signature at the front is the first of the positions. -/
theorem exists_positionsFrom_of_front {signature bytes : Bytes}
    (front : signature.isPrefixOf bytes = true) (pos : bytes ≠ []) :
    ∃ later, positionsFrom signature position found bytes = later ++ position :: found ∧
      ∀ other ∈ later, position < other := by
  cases bytes with
  | nil => exact absurd rfl pos
  | cons byte bytes =>
      rw [positionsFrom, if_pos front]
      exact exists_positionsFrom signature (position + 1) (position :: found) bytes

end Positions

section EndRecord

variable {count size offset : Nat}

theorem length_writeEnd : (writeEnd count size offset).length = 22 := by
  simp [writeEnd]

/-- The end record of a written archive. -/
def endRecordOf (position count offset : Nat) : EndRecord :=
  ⟨position, 0, 0, count, count, offset⟩

theorem endRecordAt?_writeEnd (few : count < 256 ^ 2) (small : offset < 256 ^ 4)
    (before : Bytes) :
    endRecordAt? (before ++ writeEnd count size offset) before.length =
      some (endRecordOf before.length count offset) := by
  have disk : field? (writeEnd count size offset) 4 2 = some 0 ∧
      field? (writeEnd count size offset) 6 2 = some 0 ∧
      field? (writeEnd count size offset) 8 2 = some count ∧
      field? (writeEnd count size offset) 10 2 = some count ∧
      field? (writeEnd count size offset) 16 4 = some offset ∧
      field? (writeEnd count size offset) 20 2 = some 0 := by
    simp (disch := first | assumption | simp) only [writeEnd, List.append_assoc,
      length_endSignature, length_ofNat, Nat.reduceSub, field?_append, field?_ofNat_append,
      field?_ofNat, and_self]
  rcases disk with ⟨disk, directoryDisk, here, total, directory, comment⟩
  simp [endRecordAt?, guard, disk, directoryDisk, here, total, directory, comment,
    length_writeEnd, endRecordOf]

/-- No end record starts inside the last one. -/
theorem endRecordAt?_eq_none {file : Bytes} {position : Nat} (late : file.length < position + 22) :
    endRecordAt? file position = none := by
  have short : field? (file.drop position) 20 2 = none :=
    field?_eq_none (by rw [List.length_drop]; omega) (by decide)
  simp [endRecordAt?, short]

/-- The end record of a written archive is the first that is tried. -/
theorem exists_endRecords (size : Nat) (few : count < 256 ^ 2) (small : offset < 256 ^ 4)
    (before : Bytes) :
    ∃ others, endRecords (before ++ writeEnd count size offset) =
      endRecordOf before.length count offset :: others := by
  have front : endSignature.isPrefixOf (writeEnd count size offset) = true := by
    simp [writeEnd]
  have pos : writeEnd count size offset ≠ [] :=
    List.ne_nil_of_length_pos (by rw [length_writeEnd]; decide)
  rcases exists_positionsFrom_append endSignature 0 [] before (writeEnd count size offset) with
    ⟨earlier, same⟩
  rw [Nat.zero_add] at same
  rcases exists_positionsFrom_of_front before.length earlier front pos with
    ⟨later, split, behind⟩
  have none : later.filterMap (endRecordAt? (before ++ writeEnd count size offset)) = [] := by
    rw [List.filterMap_eq_nil_iff]
    intro position mem
    apply endRecordAt?_eq_none
    have := behind position mem
    rw [List.length_append, length_writeEnd]
    omega
  rw [endRecords, same, split, List.filterMap_append, none, List.nil_append, List.filterMap_cons,
    endRecordAt?_writeEnd few small]
  exact ⟨_, rfl⟩

end EndRecord

/-! ## The archive -/

/-- Entries that an archive keeps as they are. -/
structure Kept (entries : List Entry) : Prop where
  distinct : (entries.map (·.name)).Nodup
  files : ∀ entry ∈ entries, isFolder entry.name = false
  names : ∀ entry ∈ entries, (Utf8.encode entry.name.toList).length < 256 ^ 2
  count : entries.length < 0xFFFF
  size : (entries.flatMap writeEntry).length < longMark

section Archive

variable {entries : List Entry}

theorem Kept.small (kept : Kept entries) : (entries.flatMap writeEntry).length < 256 ^ 4 :=
  Nat.lt_trans kept.size (by decide)

theorem Kept.fits (kept : Kept entries) : ∀ entry ∈ entries, entry.Fits := by
  intro entry mem
  refine ⟨?_, kept.names entry mem⟩
  have inside : (writeEntry entry).length ≤ (entries.flatMap writeEntry).length := by
    rw [List.flatMap_def]
    exact (List.sublist_flatten_of_mem (List.mem_map_of_mem mem)).length_le
  have content : entry.content.length ≤ (writeEntry entry).length := by
    simp [writeEntry]
    omega
  have := kept.small
  omega

theorem locator?_endRecordOf {file : Bytes} {position count offset : Nat} (few : count < 0xFFFF)
    (small : offset < longMark) : (endRecordOf position count offset).locator? file = none := by
  have own : ¬(count = 0xFFFF ∨ offset = longMark) := by omega
  rw [EndRecord.locator?, endRecordOf, guard, if_neg own]
  rfl

/-- The directory is found where the end record says. -/
theorem ownPlace?_endRecordOf (entries : List Entry) (rest : Bytes) :
    let data := entries.flatMap writeEntry
    let directory := writeDirectory 0 entries
    (endRecordOf (data ++ directory).length entries.length data.length).ownPlace?
      (data ++ directory ++ rest) = some ⟨0, data.length, entries.length⟩ := by
  intro data directory
  cases entries with
  | nil => rfl
  | cons entry entries =>
      have front : recordSignature.isPrefixOf directory = true := by
        simp [directory, writeDirectory, writeRecord]
      have pos : directory ≠ [] := by
        simp [directory, writeDirectory, writeRecord, recordSignature]
      rcases exists_positionsFrom_of_front data.length [] front pos with ⟨later, same, -⟩
      have start : (positionsBetween recordSignature data.length (data ++ directory).length
          (data ++ directory ++ rest)).head? = some data.length := by
        rw [positionsBetween, List.take_left, List.drop_left, same, List.reverse_append]
        rfl
      have many : (entry :: entries).length ≠ 0 := nofun
      simp only [EndRecord.ownPlace?, endRecordOf, guard, if_true, if_neg many, start]
      exact congrArg (fun shift => some (DirectoryPlace.mk shift _ _)) (Nat.sub_self _)

theorem directory?_endRecordOf (kept : Kept entries) (rest : Bytes) :
    let data := entries.flatMap writeEntry
    let directory := writeDirectory 0 entries
    (endRecordOf (data ++ directory).length entries.length data.length).directory?
      (data ++ directory ++ rest) = some (0, recordsFrom 0 entries) := by
  intro data directory
  have place : (endRecordOf (data ++ directory).length entries.length data.length).place?
      (data ++ directory ++ rest) = some ⟨0, data.length, entries.length⟩ := by
    rw [EndRecord.place?, locator?_endRecordOf kept.count kept.size]
    exact ownPlace?_endRecordOf entries rest
  have small : 0 + data.length < 256 ^ 4 := (Nat.zero_add _).symm ▸ kept.small
  simp only [EndRecord.directory?, place, Option.bind_eq_bind, Option.bind_some]
  rw [List.append_assoc, List.drop_left, readRecords?_writeDirectory kept.fits small]
  rfl

/-- An archive is read back as the entries it was written from. -/
theorem read_write (kept : Kept entries) : read (write entries) = .ok entries := by
  have few : entries.length < 256 ^ 2 := Nat.lt_trans kept.count (by decide)
  rcases exists_endRecords (writeDirectory 0 entries).length few kept.small
    (entries.flatMap writeEntry ++ writeDirectory 0 entries) with ⟨others, ends⟩
  have directory : readDirectory (write entries) = .ok (0, recordsFrom 0 entries) := by
    rw [readDirectory, write, ends]
    simp only [List.findSome?_cons, directory?_endRecordOf kept]
  have all : (recordsFrom 0 entries).foldl addRecord [] = recordsFrom 0 entries :=
    foldl_addRecord [] (by rw [List.nil_append, names_recordsFrom]; exact kept.distinct)
  have data := readEntries_recordsFrom kept.fits kept.files [] (writeDirectory 0 entries ++
    writeEnd entries.length (writeDirectory 0 entries).length
      (entries.flatMap writeEntry).length)
  rw [read, directory]
  simp only [bind, Except.bind, all, List.drop_zero]
  rw [write, List.append_assoc]
  exact data

end Archive

end Archive

/-- A package is read back from its archive. -/
theorem Package.ofBytes_toBytes {package : Package}
    (kept : Archive.Kept (package.parts.map fun part => ⟨part.name, part.content⟩)) :
    Package.ofBytes package.toBytes = .ok package := by
  rw [Package.ofBytes, Package.toBytes, Archive.read_write kept]
  simp only [List.map_map, Function.comp_def, List.map_id']

end TemplateFill
