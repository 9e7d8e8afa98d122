import TemplateFill.Markup.Node
import TemplateFill.Package.PartName

/-!
# Relationships

A relationship leads from a part, or from the package, to another part or to something
outside.  The relationships of one source stand in a part of their own.
-/

namespace TemplateFill

open TemplateFill.Text

/-- A relationship of a source. -/
structure Relationship where
  id : String
  type : String
  target : String
  /-- Whether the target is outside the package. -/
  external : Bool
  deriving DecidableEq, Repr

namespace Relationship

/-- The base of the relationship types. -/
def typeBase : String :=
  "http://schemas.openxmlformats.org/officeDocument/2006/relationships/"

/-- The base of the same types in documents of the strict kind. -/
def strictTypeBase : String := "http://purl.oclc.org/ooxml/officeDocument/relationships/"

/-- The type of the relationship from the package to its main part. -/
def mainType : String := typeBase ++ "officeDocument"

/-- The type of the relationship from a document to a chunk. -/
def chunkType : String := typeBase ++ "aFChunk"

/-- The types of the relationships from a document to the parts that hold more of its
text: headers, footers, footnotes and endnotes. -/
def storyTypes : List String :=
  [typeBase ++ "header", typeBase ++ "footer", typeBase ++ "footnotes", typeBase ++ "endnotes"]

/-- Whether a relationship is of a type, in either of its spellings. -/
def isOfType (relationship : Relationship) (type : String) : Bool :=
  relationship.type == type ||
    match stripFront? strictTypeBase.toList relationship.type.toList,
        stripFront? typeBase.toList type.toList with
    | some strict, some usual => strict == usual
    | _, _ => false

/-- The part that a relationship of `source` leads to. -/
def part? (relationship : Relationship) (source : String) : Option String :=
  if relationship.external then none else some (PartName.resolve source relationship.target)

/-- The relationship that an element holds. -/
def ofNode? (node : Node) : Option Relationship := do
  let id ← node.plainAttr? "Id"
  let type ← node.plainAttr? "Type"
  let target ← node.plainAttr? "Target"
  return ⟨id, type, target, node.plainAttr? "TargetMode" == some "External"⟩

/-- The relationships below the root of a relationship part. -/
def allOf (root : Node) : List Relationship :=
  (root.children.filter (·.denotes Term.relationship)).filterMap ofNode?

/-- The attributes of the element that holds a relationship. -/
def attrs (relationship : Relationship) : List Attr :=
  [⟨.plain "Id", relationship.id⟩, ⟨.plain "Type", relationship.type⟩,
   ⟨.plain "Target", relationship.target⟩] ++
    if relationship.external then [⟨.plain "TargetMode", "External"⟩] else []

/-- The relationship part `root` with one relationship more, at the end. -/
def appendTo (root : Node) (relationship : Relationship) : Node :=
  root.mapChildren (· ++ [.element (root.spell Term.relationship) relationship.attrs []])

/-- A relationship part without relationships. -/
def emptyPart : Node :=
  .element ⟨some Namespace.packageRelationships, none, Term.relationships.localName⟩
    [⟨⟨some Namespace.declarations, none, "xmlns"⟩, Namespace.packageRelationships⟩] []

/-- The element of a relationship holds that relationship. -/
theorem ofNode?_element (name : QName) (relationship : Relationship) (children : List Node) :
    ofNode? (.element name relationship.attrs children) = some relationship := by
  obtain ⟨id, type, target, external⟩ := relationship
  cases external <;> rfl

end Relationship

end TemplateFill
