import TemplateFill.Archive.Fault
import TemplateFill.Files.Fault
import TemplateFill.Markup.Fault

/-!
# Errors

Why a template cannot be read or filled.  Each error is a cause; its wording is
`Error.message`.
-/

namespace TemplateFill

/-- The elements that no bookmark to be filled may sit in. -/
inductive Container where
  | hyperlink
  | simpleField
  | smartTag
  deriving DecidableEq, Repr

/-- What a container is called. -/
def Container.wording : Container → String
  | .hyperlink => "hyperlink"
  | .simpleField => "simple field"
  | .smartTag => "smart tag"

/-- Why the two markers of a bookmark are no pair. -/
inductive MarkerFault where
  /-- There is no start marker of this name. -/
  | startLost (name : String)
  /-- The start marker has no id, or one that is no number. -/
  | noNumericId (name : String)
  | noEnd (name : String) (id : Int)
  | endFirst (name : String)
  /-- A marker that has been located is no longer a child of the parent it was located under. -/
  | moved
  deriving DecidableEq, Repr

/-- The wording of a marker fault. -/
def MarkerFault.message : MarkerFault → String
  | .startLost name => s!"start of {name} lost while flattening"
  | .noNumericId name => s!"{name} has no numeric id"
  | .noEnd name id => s!"no end marker for {name} (id {id})"
  | .endFirst name => s!"end of {name} precedes its start"
  | .moved => "marker moved before rewrite"

/-- Why a template cannot be read or filled. -/
inductive Error where
  | file (fault : FileFault)
  | archive (fault : Archive.Fault)
  | markup (fault : Markup.Fault)
  | missingPart (name : String)
  | noBookmarks
  | markerNotFound (name : String)
  | insideFormula (name : String)
  | trackedRevisions
  | contentControls
  | insideContainer (name : String) (container : Container)
  | differentLevels (name : String)
  | brokenMarkers (fault : MarkerFault)
  /-- The place for the working copy is the template itself. -/
  | copyIsTemplate (path : String)
  | relationshipInUse (id : String)
  deriving DecidableEq, Repr

/-- The wording of an error. -/
def Error.message : Error → String
  | .file fault => "I/O error: " ++ fault.message
  | .archive fault => (if fault.inData then "I/O error: " else "ZIP error: ") ++ fault.message
  | .markup fault => fault.message
  | .missingPart name => "Missing package part: " ++ name
  | .noBookmarks => "Template contains no bookmarks"
  | .markerNotFound name => "Bookmark not found: " ++ name
  | .insideFormula name => "Bookmark " ++ name ++ " is inside a math formula"
  | .trackedRevisions => "Document contains tracked revisions"
  | .contentControls => "Document contains content controls"
  | .insideContainer name container =>
      "Bookmark " ++ name ++ " is inside a " ++ container.wording
  | .differentLevels name => "Bookmark " ++ name ++ " starts and ends at different levels"
  | .brokenMarkers fault => "Bookmark integrity error: " ++ fault.message
  | .copyIsTemplate path => "Working copy path is the template itself: " ++ path
  | .relationshipInUse id => "Relationship id already in use: " ++ id

end TemplateFill
