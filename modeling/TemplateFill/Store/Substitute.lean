import TemplateFill.Store.Marker
import TemplateFill.Store.Pass

/-!
# Filling bookmarks in stores

A bookmark is filled in a store by one pass after the other.  Every pass but the replacement
builds a store of its own, and the replacement changes the flat form only, so that the document
stays as it was.
-/

namespace TemplateFill

namespace NodeStore

/-- A store of the document with the content of the bookmark `name` replaced by `text`; `revised`
says that the document has tracked revisions. -/
def substitute (source : NodeStore) (revised : Bool) (name text : String) :
    Except Error NodeStore := do
  source.validate revised name
  let flat := source.flatten
  let pair ← flat.locate name
  match flat.replaceRange pair with
  | none => throw (.brokenMarkers .moved)
  | some (replaced, _) => return (replaced.regroup.resolvePlaceholders text).wrapBodyRuns

end NodeStore

end TemplateFill
