import TemplateFill.Archive.Code
import TemplateFill.Text.Bytes

/-!
# Inflating

Deflated data is a sequence of blocks.  A block is stored as it is or compressed: then it
is a sequence of bytes and of references to what was written before, in prefix codes that
are fixed or come with the block.  Data that breaks off before its last block ends, or breaks
the rules of the format, stands for nothing.
-/

namespace TemplateFill.Archive

/-- The codes of a compressed block: for bytes and lengths, and for distances. -/
structure BlockCodes where
  main : PrefixCode
  distance : PrefixCode

/-- For each symbol from 257 on, the shortest length it stands for and the number of bits
that add to it. -/
def lengthSymbols : List (Nat × Nat) :=
  [(3, 0), (4, 0), (5, 0), (6, 0), (7, 0), (8, 0), (9, 0), (10, 0), (11, 1), (13, 1),
   (15, 1), (17, 1), (19, 2), (23, 2), (27, 2), (31, 2), (35, 3), (43, 3), (51, 3), (59, 3),
   (67, 4), (83, 4), (99, 4), (115, 4), (131, 5), (163, 5), (195, 5), (227, 5), (258, 0)]

/-- For each distance symbol, the shortest distance it stands for and the number of bits
that add to it. -/
def distanceSymbols : List (Nat × Nat) :=
  [(1, 0), (2, 0), (3, 0), (4, 0), (5, 1), (7, 1), (9, 2), (13, 2), (17, 3), (25, 3),
   (33, 4), (49, 4), (65, 5), (97, 5), (129, 6), (193, 6), (257, 7), (385, 7), (513, 8),
   (769, 8), (1025, 9), (1537, 9), (2049, 10), (3073, 10), (4097, 11), (6145, 11),
   (8193, 12), (12289, 12), (16385, 13), (24577, 13)]

/-- Read the bits that add to a symbol. -/
def scanExtended (symbols : List (Nat × Nat)) (symbol : Nat) (bits : List Bool) :
    Option (Nat × List Bool) := do
  let (base, width) ← symbols[symbol]?
  let (extra, rest) ← scanNumber width bits
  return (base + extra, rest)

/-- Read the length and the distance of a reference whose length symbol has been read. -/
def scanReference (code : PrefixCode) (symbol : Nat) (bits : List Bool) :
    Option ((Nat × Nat) × List Bool) := do
  let (length, bits) ← scanExtended lengthSymbols symbol bits
  let (symbol, bits) ← code.scan bits
  let (distance, bits) ← scanExtended distanceSymbols symbol bits
  return ((length, distance), bits)

theorem length_le_of_scanExtended {symbols : List (Nat × Nat)} {symbol result : Nat}
    {bits rest : List Bool} (read : scanExtended symbols symbol bits = some (result, rest)) :
    rest.length ≤ bits.length := by
  simp only [scanExtended, Option.bind_eq_bind, Option.bind_eq_some_iff, Option.pure_def,
    Option.some.injEq, Prod.mk.injEq] at read
  obtain ⟨⟨base, width⟩, -, ⟨extra, after⟩, inner, -, rfl⟩ := read
  have := length_of_scanNumber inner
  dsimp only
  omega

theorem length_le_of_scanReference {code : PrefixCode} {symbol : Nat} {result : Nat × Nat}
    {bits rest : List Bool} (read : scanReference code symbol bits = some (result, rest)) :
    rest.length ≤ bits.length := by
  simp only [scanReference, Option.bind_eq_bind, Option.bind_eq_some_iff, Option.pure_def,
    Option.some.injEq, Prod.mk.injEq] at read
  obtain ⟨⟨length, afterLength⟩, readLength, ⟨symbol, afterSymbol⟩, readSymbol,
    ⟨distance, afterDistance⟩, readDistance, -, rfl⟩ := read
  have := length_le_of_scanExtended readLength
  have := PrefixCode.length_lt_of_scan readSymbol
  have := length_le_of_scanExtended readDistance
  dsimp only at *
  omega

/-- What a compressed block tells to do next. -/
inductive Instruction where
  | byte (value : UInt8)
  | copy (length distance : Nat)
  | stop
  deriving DecidableEq, Repr

/-- The symbol that ends a block.  Those below it are bytes, those above it lengths. -/
def endSymbol : Nat := 256

/-- Read the next instruction. -/
def scanInstruction (codes : BlockCodes) (bits : List Bool) :
    Option (Instruction × List Bool) := do
  let (symbol, rest) ← codes.main.scan bits
  if symbol < endSymbol then
    return (.byte (UInt8.ofNat symbol), rest)
  else if symbol = endSymbol then
    return (.stop, rest)
  else
    let ((length, distance), rest) ←
      scanReference codes.distance (symbol - (endSymbol + 1)) rest
    return (.copy length distance, rest)

theorem length_lt_of_scanInstruction {codes : BlockCodes} {instruction : Instruction}
    {bits rest : List Bool} (read : scanInstruction codes bits = some (instruction, rest)) :
    rest.length < bits.length := by
  simp only [scanInstruction, Option.bind_eq_bind, Option.bind_eq_some_iff,
    Option.pure_def] at read
  obtain ⟨⟨symbol, afterSymbol⟩, readSymbol, read⟩ := read
  have shorter := PrefixCode.length_lt_of_scan readSymbol
  split at read
  · simp only [Option.some.injEq, Prod.mk.injEq] at read
    exact read.2 ▸ shorter
  · split at read
    · simp only [Option.some.injEq, Prod.mk.injEq] at read
      exact read.2 ▸ shorter
    · simp only [Option.bind_eq_some_iff, Option.some.injEq, Prod.mk.injEq] at read
      obtain ⟨⟨⟨length, distance⟩, after⟩, readReference, -, rfl⟩ := read
      exact Nat.lt_of_le_of_lt (length_le_of_scanReference readReference) shorter

/-- Append `length` bytes, each a copy of the one that stands `distance` before it. -/
def copyBack (distance : Nat) : (length : Nat) → Array UInt8 → Array UInt8
  | 0, output => output
  | length + 1, output =>
      copyBack distance length (output.push (output[output.size - distance]?.getD 0))

/-- Read a compressed block behind its codes: the output with it, and the bits after it. -/
def inflateCompressed (codes : BlockCodes) (output : Array UInt8) (bits : List Bool) :
    Option (Array UInt8 × List Bool) :=
  match _read : scanInstruction codes bits with
  | none => none
  | some (.stop, rest) => some (output, rest)
  | some (.byte value, rest) => inflateCompressed codes (output.push value) rest
  | some (.copy length distance, rest) =>
      if distance ≤ output.size then
        inflateCompressed codes (copyBack distance length output) rest
      else none
termination_by bits.length
decreasing_by
  · exact length_lt_of_scanInstruction _read
  · exact length_lt_of_scanInstruction _read

/-- Read `length` bytes as they are. -/
def inflateStored : (length : Nat) → (output : Array UInt8) → List Bool →
    Option (Array UInt8 × List Bool)
  | 0, output, bits => some (output, bits)
  | length + 1, output, bits =>
      match scanNumber 8 bits with
      | some (byte, rest) => inflateStored length (output.push (UInt8.ofNat byte)) rest
      | none => none

/-- The codes of a block that does not bring its own. -/
def fixedCodes : BlockCodes where
  main := .ofLengths (List.replicate 144 8 ++ List.replicate 112 9 ++ List.replicate 24 7 ++
    List.replicate 8 8)
  distance := .ofLengths (List.replicate 32 5)

/-- Read code lengths in the code `code` until there are `wanted` of them; `done` holds
those that have been read, in reverse.  Symbols from 16 on repeat a length. -/
def scanLengths (code : PrefixCode) (wanted : Nat) (done : List Nat) (bits : List Bool) :
    Option (List Nat × List Bool) :=
  if wanted ≤ done.length then
    if done.length = wanted then some (done.reverse, bits) else none
  else
    match _read : code.scan bits with
    | none => none
    | some (symbol, rest) =>
        if symbol < 16 then
          scanLengths code wanted (symbol :: done) rest
        else
          let (width, base, length?) :=
            if symbol = 16 then (2, 3, done.head?)
            else if symbol = 17 then (3, 3, some 0)
            else (7, 11, some 0)
          match _extra : scanNumber width rest, length? with
          | some (extra, rest), some length =>
              scanLengths code wanted (List.replicate (base + extra) length ++ done) rest
          | _, _ => none
termination_by bits.length
decreasing_by
  · exact PrefixCode.length_lt_of_scan _read
  · have := PrefixCode.length_lt_of_scan _read
    have := length_of_scanNumber _extra
    omega

/-- The order in which the lengths of the code for code lengths are given. -/
def lengthOrder : List Nat := [16, 17, 18, 0, 8, 7, 9, 6, 10, 5, 11, 4, 12, 3, 13, 2, 14, 1, 15]

/-- Read `count` numbers of three bits. -/
def scanTriples : (count : Nat) → List Bool → Option (List Nat × List Bool)
  | 0, bits => some ([], bits)
  | count + 1, bits => do
      let (number, bits) ← scanNumber 3 bits
      let (numbers, bits) ← scanTriples count bits
      return (number :: numbers, bits)

/-- The code for code lengths, from the lengths of its words in their given order. -/
def lengthCode (given : List Nat) : PrefixCode :=
  .ofLengths ((List.range 19).map fun symbol => ((lengthOrder.zip given).lookup symbol).getD 0)

/-- Whether two codes may be used for a block: the main one has a word for its end. -/
def areUsable (mainLengths : List Nat) (codes : BlockCodes) : Bool :=
  (mainLengths[endSymbol]?).any (· != 0) && codes.main.isUsable && codes.distance.isUsable

/-- Read the codes that a block brings. -/
def scanCodes (bits : List Bool) : Option (BlockCodes × List Bool) := do
  let (sizes, bits) ← scanNumber 14 bits
  let mains := sizes % 32 + 257
  let distances := sizes / 32 % 32 + 1
  guard (mains ≤ 286 && distances ≤ 30)
  let (given, bits) ← scanTriples (sizes / 1024 + 4) bits
  let code := lengthCode given
  guard code.isComplete
  let (lengths, bits) ← scanLengths code (mains + distances) [] bits
  let codes : BlockCodes :=
    ⟨.ofLengths (lengths.take mains), .ofLengths (lengths.drop mains)⟩
  guard (areUsable (lengths.take mains) codes)
  return (codes, bits)

/-- Read a stored block: from the next full byte on its length, the complement of the
length, and the bytes. -/
def inflateStoredBlock (output : Array UInt8) (bits : List Bool) :
    Option (Array UInt8 × List Bool) := do
  let (length, bits) ← scanNumber 16 (bits.drop (bits.length % 8))
  let (complement, bits) ← scanNumber 16 bits
  guard (length + complement = 65535)
  inflateStored length output bits

/-- Read a block of the given kind. -/
def inflateBlock (kind : Nat) (output : Array UInt8) (bits : List Bool) :
    Option (Array UInt8 × List Bool) :=
  match kind with
  | 0 => inflateStoredBlock output bits
  | 1 => inflateCompressed fixedCodes output bits
  | 2 => do
      let (codes, bits) ← scanCodes bits
      inflateCompressed codes output bits
  | _ => none

/-- Read at most `limit` blocks, up to the last one; what follows it does not matter. -/
def inflateBlocks : (limit : Nat) → (output : Array UInt8) → List Bool → Option Bytes
  | 0, _, _ => none
  | limit + 1, output, bits => do
      let (header, bits) ← scanNumber 3 bits
      let (output, bits) ← inflateBlock (header / 2) output bits
      if header % 2 = 1 then return output.toList else inflateBlocks limit output bits

/-- The data that was deflated to a byte sequence.  Every block takes three bits or more. -/
def inflate? (bytes : Bytes) : Option Bytes :=
  let bits := bitsOf bytes
  inflateBlocks (bits.length / 3 + 1) #[] bits

end TemplateFill.Archive
