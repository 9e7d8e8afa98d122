import TemplateFill.Bookmark.Position
import TemplateFill.Package.Structure
import TemplateFill.Text.Utf8

/-!
# Chunks

A value in another markup language is first put into the document as text.  The paragraph
that shows it is then replaced by a chunk: an element that refers to a part of the package
with the value in it.
-/

namespace TemplateFill

/-- Values that wait for their chunks, in the order of their substitution. -/
structure ChunkQueue where
  values : List String
  deriving DecidableEq, Repr

namespace ChunkQueue

/-- The queue without values. -/
def empty : ChunkQueue := ⟨[]⟩

/-- The queue with one value more, at the end. -/
def push (queue : ChunkQueue) (value : String) : ChunkQueue := ⟨queue.values ++ [value]⟩

/-- The values with the numbers of their chunks, from one on. -/
def numbered (queue : ChunkQueue) : List (Nat × String) :=
  queue.values.zipIdx.map fun entry => (entry.2 + 1, entry.1)

/-- The number of values. -/
def size (queue : ChunkQueue) : Nat := queue.values.length

/-- Whether no value waits. -/
def isEmpty (queue : ChunkQueue) : Bool := queue.values.isEmpty

@[simp] theorem size_push (queue : ChunkQueue) (value : String) :
    (queue.push value).size = queue.size + 1 := by
  simp [push, size]

end ChunkQueue

namespace Node

/-- The text that a paragraph shows. -/
def visibleText (node : Node) : String :=
  String.join ((node.descendants.filter (·.kind == .runText)).map (·.textContent))

/-- The first paragraph that is a child of the body or of a table cell and shows `text`. -/
def findShowing? (root : Node) (text : String) : Option Path :=
  (root.placed.find? fun place =>
    place.2.kind == .paragraph &&
      (root.at? place.1.dropLast).any (fun parent =>
        parent.kind == .body || parent.kind == .tableCell) &&
      place.2.visibleText == text).map (·.1)

/-- The document with a chunk in the place of a paragraph; `id` is that of the relationship
to the part of the chunk. -/
def putChunk (root : Node) (path : Path) (id : String) : Node :=
  let declared := root.declare Namespace.relationshipReference "r"
  declared.updateAt (fun _ =>
    .element (declared.spell Term.altChunk) [⟨declared.spell Term.relationshipId, id⟩] []) path

end Node

namespace Package

/-- Put the value with a number into the main part as a chunk.  A value that no paragraph
shows is passed over; the result tells whether it was shown. -/
def embedChunk (main idStem : String) (number : Nat) (value : String) : Edit Bool := do
  let id := idStem ++ toString number
  let root ← Edit.learn (·.document main)
  match root.findShowing? value with
  | none => return false
  | some path =>
      let _ ← addChunkPart main id (Utf8.encode value.toList)
      modify (·.setDocument main (root.putChunk path id))
      return true

/-- Put numbered values into the main part, one after the other; the result is the number
of those that were shown, counted from `count` on. -/
def embedFrom (main idStem : String) (count : Nat) : List (Nat × String) → Edit Nat
  | [] => return count
  | (number, value) :: rest => do
      let shown ← embedChunk main idStem number value
      embedFrom main idStem (if shown then count + 1 else count) rest

/-- Put all waiting values into the main part as chunks; the result is their number. -/
def embedChunks (queue : ChunkQueue) (idStem : String) : Edit Nat := do
  let main ← Edit.learn (·.mainPart)
  embedFrom main idStem 0 queue.numbered

end Package

end TemplateFill
