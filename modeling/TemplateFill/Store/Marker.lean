import TemplateFill.Bookmark.Placeholder
import TemplateFill.Store.Copy

/-!
# Markers in stores

The markers of a bookmark are looked for among the nodes below the root of a store, and what is
between them is replaced by a placeholder in place.  Before that the document is checked as it is
stored.
-/

namespace TemplateFill

open TemplateFill.Text

namespace Label

/-- Whether a node with this label is the start marker of the bookmark `name`. -/
def startsBookmark (name : String) (label : Label) : Bool :=
  label.kind == .bookmarkStart && attrValue? label.attrs Term.markerName == some name

/-- The id of a marker with this label. -/
def markerId? (label : Label) : Option Int :=
  (attrValue? label.attrs Term.markerId).bind fun value => signed64? (trim value.toList)

/-- Whether a node with this label is an end marker with the number `id`. -/
def endsBookmark (id : Int) (label : Label) : Bool :=
  label.kind == .bookmarkEnd && label.markerId? == some id

/-- The container that a node with this label is, if it is one. -/
def container? (label : Label) : Option Container :=
  match label.kind with
  | .hyperlink => some .hyperlink
  | .simpleField => some .simpleField
  | .smartTag => some .smartTag
  | _ => none

/-- Whether a node with this label outlives the replacement of what is between two markers. -/
def outlivesReplacement (label : Label) : Bool :=
  label.kind != .paragraph && label.kind != .run && label.kind != .table

end Label

/-- The ids of two markers and of the parent they share. -/
structure StorePair where
  start : NodeId
  stop : NodeId
  parent : NodeId
  deriving DecidableEq, Repr

namespace NodeStore

/-- The first start marker of the bookmark `name` below the root. -/
def findStart? (store : NodeStore) (name : String) : Option NodeId :=
  (store.descendants store.root).find? fun id => (store.label id).startsBookmark name

/-- Whether filling `name` is safe in the document as it is stored; `revised` says that the
document has tracked revisions. -/
def validate (store : NodeStore) (revised : Bool) (name : String) : Except Error Unit :=
  match store.findStart? name with
  | none => .error (.markerNotFound name)
  | some start =>
      if (store.parent? start).any fun parent => (store.label parent).kind == .math then
        .error (.insideFormula name)
      else if revised then .error .trackedRevisions
      else if (store.descendants store.root).any fun id =>
          (store.label id).kind == .contentControl then .error .contentControls
      else .ok ()

/-- Both markers of `name`. -/
def findMarkers (store : NodeStore) (name : String) : Except Error (NodeId × NodeId) :=
  match store.findStart? name with
  | none => .error (.brokenMarkers (.startLost name))
  | some start =>
      match (store.label start).markerId? with
      | none => .error (.brokenMarkers (.noNumericId name))
      | some id =>
          match (store.descendants store.root).find? fun inner =>
              (store.label inner).endsBookmark id with
          | none => .error (.brokenMarkers (.noEnd name id))
          | some stop => .ok (start, stop)

/-- The nearest container around a node. -/
def nearestContainer? (store : NodeStore) (id : NodeId) : Option Container :=
  (store.ancestors id).findSome? fun above => (store.label above).container?

/-- The pair that two markers make. -/
def pair (store : NodeStore) (name : String) (start stop : NodeId) : Except Error StorePair :=
  match store.parent? start, store.parent? stop with
  | some parent, some parent' =>
      if parent = parent' then
        let siblings := store.children parent
        if Option.lt (· < ·) (siblings.idxOf? stop) (siblings.idxOf? start) then
          .error (.brokenMarkers (.endFirst name))
        else .ok ⟨start, stop, parent⟩
      else .error (.differentLevels name)
  | _, _ => .error (.differentLevels name)

/-- Both markers of `name`, if neither sits in a container. -/
def locate (store : NodeStore) (name : String) : Except Error StorePair := do
  let (start, stop) ← store.findMarkers name
  match (store.nearestContainer? start).or (store.nearestContainer? stop) with
  | some container => throw (.insideContainer name container)
  | none => store.pair name start stop

/-- The formatting of the first run among siblings. -/
def firstFormatting? (store : NodeStore) (siblings : List NodeId) : Option NodeId :=
  (siblings.find? fun id => (store.label id).kind == .run).bind fun run =>
    (store.children run).find? fun id => (store.label id).kind == .runProps

/-- Add the placeholder for a range of siblings. -/
def addPlaceholder (store : NodeStore) (range : List NodeId) : NodeStore × NodeId :=
  let added := store.alloc (.element (QName.ofTerm Term.placeholder) [])
  match store.firstFormatting? range with
  | none => added
  | some formatting =>
      let copy := added.1.duplicate formatting
      (copy.1.append added.2 copy.2, added.2)

/-- Replace what is between two markers by a placeholder, which is the result; there is none if
a marker has been moved away from the parent. -/
def replaceRange (store : NodeStore) (pair : StorePair) : Option (NodeStore × NodeId) :=
  let siblings := store.children pair.parent
  match siblings.idxOf? pair.start, siblings.idxOf? pair.stop with
  | some first, some last =>
      let range := (siblings.take last).drop (first + 1)
      let placeholder := store.addPlaceholder range
      let kept := range.filter fun id => (store.label id).outlivesReplacement
      some (placeholder.1.setChildren pair.parent
        (siblings.take (first + 1) ++ placeholder.2 :: kept ++ siblings.drop last), placeholder.2)
  | _, _ => none

end NodeStore

end TemplateFill
