import TemplateFill.Package.ContentTypes
import TemplateFill.Package.Parts
import TemplateFill.Package.Relationship

/-!
# The structure of a package

Relationships lead through a package, and new parts are related to old ones.  An edit that
fails leaves in the package what it had done before.
-/

namespace TemplateFill

namespace Package

/-- The relationships of a source. -/
def relationships (package : Package) (source : String) : Except Error (List Relationship) :=
  let part := PartName.relationshipsOf source
  if package.has part then (package.document part).map Relationship.allOf else .ok []

/-- Where the main part is, if no relationship tells. -/
def usualMainPart : String := "word/document.xml"

/-- The name of the main part: what the first relationship of its type leads to, if it is
there, or else the usual place. -/
def mainPart (package : Package) : Except Error String := do
  let relationships ← package.relationships ""
  let related := (relationships.find? (·.isOfType Relationship.mainType)).bind (·.part? "")
  match related.filter package.has with
  | some part => return part
  | none =>
      if package.has usualMainPart then return usualMainPart
      else throw (.missingPart usualMainPart)

/-- The parts that relationships of one type lead to from `source`. -/
def relatedParts (package : Package) (source type : String) : Except Error (List String) := do
  let relationships ← package.relationships source
  return ((relationships.filter (·.isOfType type)).filterMap (·.part? source)).filter package.has

/-- A change of a package that can fail. -/
abbrev Edit (α : Type) : Type := ExceptT Error (StateM Package) α

/-- What an edit learns about the package. -/
def Edit.learn {α : Type} (question : Package → Except Error α) : Edit α := do
  ofExcept (question (← get))

/-- Add a relationship to `source`. -/
def addRelationship (source : String) (relationship : Relationship) : Edit Unit := do
  let part := PartName.relationshipsOf source
  let root ← Edit.learn fun package =>
    if package.has part then package.document part else .ok Relationship.emptyPart
  if (Relationship.allOf root).any (·.id == relationship.id) then
    throw (.relationshipInUse relationship.id)
  modify (·.setDocument part (Relationship.appendTo root relationship))

/-- The first chunk part next to `source` that is not there yet. -/
def freshChunk (package : Package) (source : String) : String :=
  (((List.range (package.parts.length + 1)).map fun index =>
    PartName.chunk source (index + 1)).find? fun name => !package.has name).getD ""

/-- Add a chunk part next to `source`, related to it under `id`; the result is the name of
the new part. -/
def addChunkPart (source id : String) (content : Bytes) : Edit String := do
  let relationships ← Edit.learn (·.relationships source)
  if relationships.any (·.id == id) then
    throw (.relationshipInUse id)
  let part := (← get).freshChunk source
  let types ← Edit.learn (·.document ContentTypes.partName)
  modify (·.setDocument ContentTypes.partName
    (ContentTypes.setOverride types part ContentTypes.chunk))
  modify (·.set part content)
  addRelationship source ⟨id, Relationship.chunkType, PartName.relative source part, false⟩
  return part

end Package

end TemplateFill
