import TemplateFill.Markup.Node
import TemplateFill.Package.PartName

/-!
# Content types

One part of a package lists the content types of the others: by an override for a single
part, or else by the extension of its name.
-/

namespace TemplateFill.ContentTypes

open TemplateFill.Text

/-- The part that lists the content types. -/
def partName : String := "[Content_Types].xml"

/-- The content type of chunk parts. -/
def chunk : String := "application/xhtml+xml"

/-- How the list of content types names a part. -/
def listedName (part : String) : String := "/" ++ PartName.bare part

/-- What stands behind the last dot of a name. -/
def extension? (part : String) : Option String :=
  (cutLast? '.' part.toList).map fun cut => String.ofList cut.2

/-- Whether a node is an element called `localName`, in any namespace, whose attribute `key`
is `value` but for case. -/
def isEntry (localName key value : String) (node : Node) : Bool :=
  node.name?.any (·.localName == localName) &&
    (node.plainAttr? key).any (sameButCase · value)

/-- The content type of the first entry for a key that gives one. -/
def entryType? (types : Node) (localName key value : String) : Option String :=
  types.children.findSome? fun node =>
    if isEntry localName key value node then node.plainAttr? "ContentType" else none

/-- The content type of a part. -/
def type? (types : Node) (part : String) : Option String :=
  (entryType? types "Override" "PartName" (listedName part)).or
    ((extension? part).bind fun extension => entryType? types "Default" "Extension" extension)

/-- Whether a node is an override for a part. -/
def overrides (part : String) (node : Node) : Bool :=
  node.denotes Term.override && (node.plainAttr? "PartName").any (sameButCase · (listedName part))

/-- The list of content types with an override for a part, at the end, in the place of all
earlier ones. -/
def setOverride (types : Node) (part type : String) : Node :=
  types.mapChildren fun children =>
    children.filter (!overrides part ·) ++
      [.element (types.spell Term.override)
        [⟨.plain "PartName", listedName part⟩, ⟨.plain "ContentType", type⟩] []]

end TemplateFill.ContentTypes
