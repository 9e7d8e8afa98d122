import TemplateFill.Bookmark.Substitute
import TemplateFill.Files.Access
import TemplateFill.Package.Archived
import TemplateFill.Package.Chunk
import TemplateFill.Package.Detector
import TemplateFill.Values

/-!
# Filling templates

A template is filled in a working copy.  Every value is first substituted as a text; values
that start like another markup language are then embedded as chunks.  The template is only
read, and the copy is removed whether filling succeeds or not.
-/

namespace TemplateFill

/-- Settings for filling a template. -/
structure FillOptions where
  /-- Values that start with this are embedded as chunks. -/
  htmlMark : String := "<html>"
  /-- The relationship ids of chunks are this and a number. -/
  chunkIdStem : String := "AltChunkId"
  deriving DecidableEq, Repr

/-- A filled template. -/
structure FillOutcome where
  content : Bytes
  /-- The number of bookmarks that have been filled. -/
  substituted : Nat
  /-- The number of values that have been embedded as chunks. -/
  chunks : Nat
  deriving DecidableEq, Repr

/-- Fill bookmarks of the main part, one after the other. -/
def Package.fillBookmarks (main : String) (revised : Bool) (package : Package) :
    List Entry → Except Error Package
  | [] => .ok package
  | (bookmark, value) :: rest => do
      let root ← package.document main
      let filled ← Bookmark.substitute root revised bookmark value
      Package.fillBookmarks main revised (package.setDocument main filled) rest

/-- The values that start with `mark`. -/
def Values.marked (values : Values) (mark : String) : ChunkQueue :=
  ⟨(values.entries.map (·.2)).filter fun value => mark.toList.isPrefixOf value.toList⟩

namespace Fill

variable {m : Type → Type} [Monad m] [FileAccess m]

/-- Use a file; a fault is an error. -/
def use {α : Type} (action : m (Except FileFault α)) : ExceptT Error m α :=
  ExceptT.mk do return (← action).mapError .file

/-- Read the package in a file.  A folder opens like a file but holds no archive. -/
def openPackage (path : String) : ExceptT Error m Package := do
  match ← (FileAccess.read path : m (Except FileFault Bytes)) with
  | .ok bytes => ofExcept (Package.ofBytes bytes)
  | .error .isDirectory => throw (.archive .unreadable)
  | .error fault => throw (.file fault)

/-- Write a package to a file. -/
def savePackage (path : String) (package : Package) : ExceptT Error m Unit :=
  use (FileAccess.write path package.toBytes)

/-- Make a working copy.  What is in its place is removed, but never the template. -/
def makeCopy (template copy : String) : ExceptT Error m Unit := do
  if let .ok place ← (FileAccess.identify copy : m (Except FileFault String)) then
    if place = (← use (FileAccess.identify template)) then
      throw (.copyIsTemplate copy)
    use (FileAccess.remove copy)
  let bytes ← use (FileAccess.read template)
  use (FileAccess.write copy bytes)

/-- Do something with a working copy and remove the copy afterwards in any case. -/
def withCopy {α : Type} (copy : String) (action : ExceptT Error m α) : ExceptT Error m α :=
  ExceptT.mk do
    let result ← action.run
    let _ ← (FileAccess.remove copy : m (Except FileFault Unit))
    return result

/-- Substitute the values in the package in the working copy. -/
def fillTexts (detector : Detector) (values : Values) (copy : String) :
    ExceptT Error m Unit := do
  let package ← openPackage copy
  let main ← ofExcept package.mainPart
  let revised ← ofExcept (detector.answer 1 package)
  let filled ← ofExcept (package.fillBookmarks main revised values.entries)
  savePackage copy filled

/-- Embed values in the package in the working copy as chunks; the result is their
number. -/
def fillChunks (idStem : String) (queue : ChunkQueue) (copy : String) :
    ExceptT Error m Nat := do
  if queue.isEmpty then
    return 0
  let package ← openPackage copy
  match (Package.embedChunks queue idStem).run.run package with
  | (.ok count, embedded) =>
      savePackage copy embedded
      return count
  | (.error error, _) => throw error

/-- Fill the working copy of a template. -/
def fillCopy (options : FillOptions) (detector : Detector) (values : Values) (copy : String) :
    ExceptT Error m FillOutcome := do
  fillTexts detector values copy
  let chunks ← fillChunks options.chunkIdStem (values.marked options.htmlMark) copy
  let content ← use (FileAccess.read copy)
  return ⟨content, values.size, chunks⟩

/-- Fill the template in a file with the values in the text `data`, in a working copy. -/
def fill (options : FillOptions) (detector : Detector) (template data copy : String) :
    ExceptT Error m FillOutcome := do
  let package ← openPackage template
  let bookmarks ← ofExcept (package.templateBookmarks detector 0)
  let values ← ofExcept ((Values.read bookmarks data).mapError .markup)
  makeCopy template copy
  withCopy copy (fillCopy options detector values copy)

end Fill

end TemplateFill
