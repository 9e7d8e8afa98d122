import TemplateFill.Bookmark.Position
import TemplateFill.Error
import TemplateFill.Text.Blank

/-!
# Bookmark markers

A bookmark is a start marker with a name and an id, and the first end marker with the same
id, as a number.  It can be filled only where both markers are siblings, the start before
the end, and where neither sits in a hyperlink, field or smart tag.
-/

namespace TemplateFill

open TemplateFill.Text

/-- Two markers under one parent, the start before the end. -/
structure MarkerPair where
  /-- The position of the parent. -/
  parent : Path
  /-- The index of the start marker among the children of the parent. -/
  first : Nat
  /-- The index of the end marker. -/
  last : Nat
  first_lt_last : first < last
  deriving DecidableEq, Repr

namespace MarkerPair

/-- The siblings strictly between the markers. -/
def between (pair : MarkerPair) (siblings : List Node) : List Node :=
  (siblings.take pair.last).drop (pair.first + 1)

end MarkerPair

namespace Node

/-- Whether a node is the start marker of the bookmark `name`. -/
def startsBookmark (name : String) (node : Node) : Bool :=
  node.kind == .bookmarkStart && node.attr? Term.markerName == some name

/-- The id of a marker: a decimal number of 64 bits with an optional sign, blanks around it
disregarded. -/
def markerId? (node : Node) : Option Int :=
  (node.attr? Term.markerId).bind fun value => signed64? (trim value.toList)

/-- Whether a node is an end marker with the number `id`. -/
def endsBookmark (id : Int) (node : Node) : Bool :=
  node.kind == .bookmarkEnd && node.markerId? == some id

/-- The container that a node is, if it is one. -/
def container? (node : Node) : Option Container :=
  match node.kind with
  | .hyperlink => some .hyperlink
  | .simpleField => some .simpleField
  | .smartTag => some .smartTag
  | _ => none

end Node

namespace Bookmark

/-- The first start marker of the bookmark `name` below the root. -/
def findStart? (root : Node) (name : String) : Option (Path × Node) :=
  root.findPlaced? (·.startsBookmark name)

/-- The names of all bookmarks in document order, with repetitions. -/
def names (root : Node) : List String :=
  (root.descendants.filter fun node => node.kind == .bookmarkStart).filterMap
    (·.attr? Term.markerName)

/-- The nearest container around a position. -/
def nearestContainer? (root : Node) (path : Path) : Option Container :=
  (root.enclosing path).reverse.findSome? Node.container?

/-- Whether filling `name` is safe in the document as it is stored; `revised` says that the
document has tracked revisions. -/
def validate (root : Node) (revised : Bool) (name : String) : Except Error Unit :=
  match findStart? root name with
  | none => .error (.markerNotFound name)
  | some (path, _) =>
      if (root.at? path.dropLast).any (·.kind == .math) then .error (.insideFormula name)
      else if revised then .error .trackedRevisions
      else if root.descendants.any (·.kind == .contentControl) then .error .contentControls
      else .ok ()

/-- The positions of both markers of `name`. -/
def findMarkers (root : Node) (name : String) : Except Error (Path × Path) :=
  match findStart? root name with
  | none => .error (.brokenMarkers (.startLost name))
  | some (start, marker) =>
      match marker.markerId? with
      | none => .error (.brokenMarkers (.noNumericId name))
      | some id =>
          match root.findPlaced? (·.endsBookmark id) with
          | none => .error (.brokenMarkers (.noEnd name id))
          | some (stop, _) => .ok (start, stop)

/-- The pair that two markers make. -/
def pair (name : String) (start stop : Path) : Except Error MarkerPair :=
  if start.dropLast = stop.dropLast then
    if ordered : start.getLastD 0 < stop.getLastD 0 then
      .ok ⟨start.dropLast, start.getLastD 0, stop.getLastD 0, ordered⟩
    else .error (.brokenMarkers (.endFirst name))
  else .error (.differentLevels name)

/-- Both markers of `name`, wherever they are. -/
def findPair (root : Node) (name : String) : Except Error MarkerPair := do
  let (start, stop) ← findMarkers root name
  pair name start stop

/-- Both markers of `name`, if neither sits in a container. -/
def locate (root : Node) (name : String) : Except Error MarkerPair := do
  let (start, stop) ← findMarkers root name
  match (nearestContainer? root start).or (nearestContainer? root stop) with
  | some container => throw (.insideContainer name container)
  | none => pair name start stop

end Bookmark

end TemplateFill
