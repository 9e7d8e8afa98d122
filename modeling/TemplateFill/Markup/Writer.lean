import TemplateFill.Markup.Node
import TemplateFill.Markup.Reference
import TemplateFill.Text.Utf8

/-!
# Writing documents

An element without children is one empty tag.  Attribute values stand in double quotes.
Texts and values are escaped, comments are not.
-/

namespace TemplateFill

open TemplateFill.Markup

/-- An attribute with the blank in front of it. -/
def Attr.write (attr : Attr) : List Char :=
  ' ' :: attr.name.written.toList ++ ['=', '"'] ++ escape attr.value.toList ++ ['"']

/-- Name and attributes of a tag. -/
def writeTag (name : QName) (attrs : List Attr) : List Char :=
  name.written.toList ++ attrs.flatMap Attr.write

namespace Node

mutual

/-- The markup of a node. -/
def write : Node → List Char
  | .element name attrs [] => '<' :: writeTag name attrs ++ ['/', '>']
  | .element name attrs (child :: rest) =>
      '<' :: writeTag name attrs ++ ['>'] ++ (write child ++ writeAll rest) ++
        ['<', '/'] ++ name.written.toList ++ ['>']
  | .text content => escape content.toList
  | .comment content => ['<', '!', '-', '-'] ++ content.toList ++ ['-', '-', '>']

/-- The markup of siblings. -/
def writeAll : List Node → List Char
  | [] => []
  | node :: rest => write node ++ writeAll rest

end

/-- The markup of a node as a string. -/
def toMarkup (node : Node) : String := String.ofList node.write

/-- The declaration at the start of every part that is written. -/
def declaration : List Char :=
  "<?xml version=\"1.0\" encoding=\"UTF-8\" standalone=\"yes\"?>".toList

/-- The text of a document with its declaration. -/
def toDocument (root : Node) : List Char := declaration ++ root.write

/-- The bytes of a document with its declaration, in UTF-8. -/
def toBytes (root : Node) : Bytes := Utf8.encode root.toDocument

end Node

end TemplateFill
