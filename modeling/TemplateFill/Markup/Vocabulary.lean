import TemplateFill.Markup.Name

/-!
# Vocabularies

The namespaces of word-processing documents and packages, the element and attribute
names that are looked for or written, and the kinds of element that a substitution
tells apart.
-/

namespace TemplateFill

namespace Namespace

/-- Word-processing markup. -/
def word : String := "http://schemas.openxmlformats.org/wordprocessingml/2006/main"

/-- Mathematical formulas. -/
def math : String := "http://schemas.openxmlformats.org/officeDocument/2006/math"

/-- References from a document to relationships of its part. -/
def relationshipReference : String :=
  "http://schemas.openxmlformats.org/officeDocument/2006/relationships"

/-- Relationship parts of a package. -/
def packageRelationships : String :=
  "http://schemas.openxmlformats.org/package/2006/relationships"

/-- The content type part of a package. -/
def contentTypes : String :=
  "http://schemas.openxmlformats.org/package/2006/content-types"

/-- The namespace that the qualifier `xml` always has. -/
def xml : String := "http://www.w3.org/XML/1998/namespace"

/-- The namespace of namespace declarations. -/
def declarations : String := "http://www.w3.org/2000/xmlns/"

/-- Placeholders, which only live while a substitution is under way. -/
def placeholder : String := "urn:docx-bookmarks:placeholder"

end Namespace

namespace Term

/-- A word of word-processing markup. -/
def word (localName : String) : Term := ⟨Namespace.word, "w", localName⟩

def paragraph : Term := word "p"
def run : Term := word "r"
def runText : Term := word "t"
def altChunk : Term := word "altChunk"
def markerId : Term := word "id"
def markerName : Term := word "name"
def placeholder : Term := ⟨Namespace.placeholder, "bm", "Placeholder"⟩
def relationshipId : Term := ⟨Namespace.relationshipReference, "r", "id"⟩
def space : Term := ⟨Namespace.xml, "xml", "space"⟩
def relationship : Term := ⟨Namespace.packageRelationships, "", "Relationship"⟩
def relationships : Term := ⟨Namespace.packageRelationships, "", "Relationships"⟩
def override : Term := ⟨Namespace.contentTypes, "", "Override"⟩

end Term

/-- The kinds of node that a substitution tells apart. -/
inductive Kind where
  /-- Text or comment. -/
  | charData
  | body
  | paragraph
  | paragraphProps
  | run
  | runProps
  /-- The text of a run. -/
  | runText
  | table
  | tableCell
  | tableCellProps
  | textBoxContent
  /-- A content control. -/
  | contentControl
  | bookmarkStart
  | bookmarkEnd
  | hyperlink
  | simpleField
  | smartTag
  | altChunk
  /-- Any element of a formula. -/
  | math
  | placeholder
  /-- Every other element. -/
  | generic
  deriving DecidableEq, Repr

/-- The word-processing elements with a kind of their own. -/
def wordKinds : List (String × Kind) :=
  [("body", .body), ("p", .paragraph), ("pPr", .paragraphProps), ("r", .run),
   ("rPr", .runProps), ("t", .runText), ("tbl", .table), ("tc", .tableCell),
   ("tcPr", .tableCellProps), ("txbxContent", .textBoxContent), ("sdt", .contentControl),
   ("bookmarkStart", .bookmarkStart), ("bookmarkEnd", .bookmarkEnd),
   ("hyperlink", .hyperlink), ("fldSimple", .simpleField), ("smartTag", .smartTag),
   ("altChunk", .altChunk)]

/-- The word-processing elements that only tracked changes bring into a document. -/
def revisionMarks : List String :=
  ["ins", "del", "moveFrom", "moveTo", "moveFromRangeStart", "moveFromRangeEnd",
   "moveToRangeStart", "moveToRangeEnd", "pPrChange", "rPrChange", "sectPrChange",
   "tblPrChange", "tblPrExChange", "tblGridChange", "tcPrChange", "trPrChange",
   "numberingChange", "cellIns", "cellDel", "cellMerge", "customXmlInsRangeStart",
   "customXmlInsRangeEnd", "customXmlDelRangeStart", "customXmlDelRangeEnd",
   "customXmlMoveFromRangeStart", "customXmlMoveFromRangeEnd", "customXmlMoveToRangeStart",
   "customXmlMoveToRangeEnd"]

namespace QName

/-- The kind of the elements with this name. -/
def kind (name : QName) : Kind :=
  if name.ns = some Namespace.word then
    (wordKinds.lookup name.localName).getD .generic
  else if name.ns = some Namespace.math then
    .math
  else if name.denotes Term.placeholder then
    .placeholder
  else
    .generic

/-- Whether the name belongs to tracked change markup. -/
def isRevisionMark (name : QName) : Bool :=
  name.ns == some Namespace.word && revisionMarks.contains name.localName

end QName

/-- The declared qualifier of a namespace: of the first declaration of `ns` among the
attributes `attrs` of the root, `some none` where it is the default namespace.  The
namespace of the qualifier `xml` is always declared. -/
def declaredQualifier? (attrs : List Attr) (ns : String) : Option (Option String) :=
  if ns = Namespace.xml then
    some (some "xml")
  else
    (attrs.find? fun attr =>
      attr.name.ns == some Namespace.declarations && attr.value == ns).map fun attr =>
        attr.name.qualifier.map fun _ => attr.name.localName

/-- How a vocabulary word is written below a root with the attributes `attrs`: with the
qualifier declared there, else with the usual one. -/
def Term.spelled (term : Term) (attrs : List Attr) : QName :=
  QName.ofParts (some term.ns) ((declaredQualifier? attrs term.ns).getD (some term.qualifier))
    term.localName

/-- The attributes `attrs` with a declaration of `ns`, added unless there is one. -/
def declareNamespace (attrs : List Attr) (ns qualifier : String) : List Attr :=
  if (declaredQualifier? attrs ns).isSome then
    attrs
  else
    attrs ++ [⟨QName.ofParts (some Namespace.declarations) (some "xmlns") qualifier, ns⟩]

end TemplateFill
