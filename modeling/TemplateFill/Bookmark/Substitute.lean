import TemplateFill.Bookmark.Placeholder
import TemplateFill.Bookmark.Regroup

/-!
# Filling and reading bookmarks

A bookmark is filled in the flat form of its document, where the content to be replaced is
one run of siblings; the result is put into paragraphs again.  It is read in the flat form
too, where a paragraph mark stands for a line end.
-/

namespace TemplateFill

namespace Bookmark

/-- The document with the content of the bookmark `name` replaced by `text`; `revised` says
that the document has tracked revisions. -/
def substitute (root : Node) (revised : Bool) (name text : String) : Except Error Node := do
  validate root revised name
  let flat := root.flatten
  let pair ← locate flat name
  return ((flat.putPlaceholder pair).regroup.resolvePlaceholders text).wrapBodyRuns

/-- The text that a sibling of the flat form shows: runs their texts, paragraph marks a line
end, all else nothing. -/
def shownText (node : Node) : String :=
  match node.kind with
  | .run =>
      String.join ((node.descendants.filter (·.kind == .runText)).map (·.textContent))
  | .paragraph => "\n"
  | _ => ""

/-- The text of the bookmark `name`. -/
def text (root : Node) (name : String) : Except Error String :=
  match findStart? root name with
  | none => .error (.markerNotFound name)
  | some _ => do
      let flat := root.flatten
      let pair ← findPair flat name
      let siblings := ((flat.at? pair.parent).map (·.children)).getD []
      return String.join ((pair.between siblings).map shownText)

end Bookmark

end TemplateFill
