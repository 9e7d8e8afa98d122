/-!
# Bits and prefix codes

Compressed data is a sequence of bits.  Numbers stand in it with their lowest bit first,
and symbols in a prefix code that is given by the lengths of its code words alone: shorter
words come first, and words of one length are numbered in the order of their symbols.
-/

namespace TemplateFill.Archive

/-- The bits of a byte, the lowest first. -/
def bitsOfByte (byte : UInt8) : List Bool :=
  (List.range 8).map fun index => byte.toNat.testBit index

/-- The bits of a byte sequence. -/
def bitsOf (bytes : List UInt8) : List Bool := bytes.flatMap bitsOfByte

/-- Read a number of `width` bits, the lowest first; what follows it is left. -/
def scanNumber : (width : Nat) → List Bool → Option (Nat × List Bool)
  | 0, bits => some (0, bits)
  | _ + 1, [] => none
  | width + 1, bit :: bits => do
      let (high, rest) ← scanNumber width bits
      return (bit.toNat + 2 * high, rest)

theorem length_of_scanNumber {width number : Nat} {bits rest : List Bool}
    (read : scanNumber width bits = some (number, rest)) :
    rest.length + width = bits.length := by
  induction width generalizing bits rest number with
  | zero =>
      simp only [scanNumber, Option.some.injEq, Prod.mk.injEq] at read
      simp [read.2]
  | succ width ih =>
      cases bits with
      | nil => simp [scanNumber] at read
      | cons bit bits =>
          simp only [scanNumber, Option.bind_eq_bind, Option.bind_eq_some_iff, Option.pure_def,
            Option.some.injEq, Prod.mk.injEq] at read
          obtain ⟨⟨high, after⟩, inner, -, rfl⟩ := read
          have := ih inner
          simp only [List.length_cons]
          omega

/-- A prefix code. -/
structure PrefixCode where
  /-- How many code words there are of each length, from one on. -/
  counts : List Nat
  /-- The symbols in the order of their code words. -/
  symbols : Array Nat
  deriving Repr

namespace PrefixCode

/-- The longest code words have so many bits. -/
def longest : Nat := 15

/-- The code in which each symbol has a word of the given length; a symbol with the length
zero has none. -/
def ofLengths (lengths : List Nat) : PrefixCode where
  counts := (List.range longest).map fun index => lengths.count (index + 1)
  symbols := ((List.range longest).flatMap fun index =>
    (lengths.zipIdx.filter fun entry => entry.1 == index + 1).map (·.2)).toArray

/-- The number of longest words that a code could still take, or nothing if it has too many
words. -/
def spareWords? (code : PrefixCode) : Option Nat :=
  code.counts.foldlM
    (fun spare count => if count ≤ 2 * spare then some (2 * spare - count) else none) 1

/-- Whether every sequence of bits starts with a word of the code. -/
def isComplete (code : PrefixCode) : Bool := code.spareWords? == some 0

/-- Whether a code has only one bit words, if it has any. -/
def isTrivial (code : PrefixCode) : Bool := code.counts.tail.all (· == 0)

/-- Whether a code may be used for data: it is complete, or trivial without having too many
words. -/
def isUsable (code : PrefixCode) : Bool :=
  code.isComplete || (code.isTrivial && code.spareWords?.isSome)

/-- Read a symbol by the counts of the word lengths that are left to be tried.  The bits
read so far make the number `word`; the words of their length start at the number `first`,
and the symbols of these words at `index`. -/
def scanFrom (symbols : Array Nat) :
    (counts : List Nat) → (word first index : Nat) → List Bool → Option (Nat × List Bool)
  | [], _, _, _, _ => none
  | _ :: _, _, _, _, [] => none
  | count :: counts, word, first, index, bit :: bits =>
      let word := 2 * word + bit.toNat
      let first := 2 * first
      if word < first + count then
        symbols[index + (word - first)]?.map fun symbol => (symbol, bits)
      else scanFrom symbols counts word (first + count) (index + count) bits

/-- Read a symbol. -/
def scan (code : PrefixCode) (bits : List Bool) : Option (Nat × List Bool) :=
  scanFrom code.symbols code.counts 0 0 0 bits

theorem length_lt_of_scanFrom {symbols : Array Nat} {counts : List Nat}
    {word first index symbol : Nat} {bits rest : List Bool}
    (read : scanFrom symbols counts word first index bits = some (symbol, rest)) :
    rest.length < bits.length := by
  induction counts generalizing word first index bits with
  | nil => simp [scanFrom] at read
  | cons count counts ih =>
      cases bits with
      | nil => simp [scanFrom] at read
      | cons bit bits =>
          simp only [scanFrom] at read
          split at read
          · simp only [Option.map_eq_some_iff, Prod.mk.injEq] at read
            obtain ⟨_, -, -, rfl⟩ := read
            simp
          · exact Nat.lt_succ_of_lt (ih read)

/-- Reading a symbol uses up bits. -/
theorem length_lt_of_scan {code : PrefixCode} {symbol : Nat} {bits rest : List Bool}
    (read : code.scan bits = some (symbol, rest)) : rest.length < bits.length :=
  length_lt_of_scanFrom read

end PrefixCode

end TemplateFill.Archive
