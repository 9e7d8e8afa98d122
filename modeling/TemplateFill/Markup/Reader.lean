import TemplateFill.Markup.Lexeme
import TemplateFill.Markup.Node
import TemplateFill.Markup.Tag

/-!
# Reading documents

The lexical units of a text are taken one after the other.  Start tags open elements, end
tags close the one opened last, and a closed element becomes a child of the one around it
or the root.  Names are resolved when their tag is read, in the declarations of the open
elements and of the tag itself, the innermost first.
-/

namespace TemplateFill.Markup

open TemplateFill.Text

/-- Namespace declarations of one element, by qualifier; the empty qualifier declares the
default namespace. -/
abbrev Declarations := List (List Char × List Char)

/-- The declaration that an attribute makes. -/
def RawAttr.declaration? (attr : RawAttr) : Option (List Char × List Char) :=
  if attr.key = "xmlns".toList then
    some ([], attr.value)
  else
    (stripFront? "xmlns:".toList attr.key).map fun qualifier => (qualifier, attr.value)

/-- The namespace of a qualifier in the declarations of nested elements, the innermost
first.  An empty namespace is none. -/
def resolveQualifier (scopes : List Declarations) (qualifier : List Char) : Option String :=
  if qualifier = "xml".toList then
    some Namespace.xml
  else
    match scopes.flatten.lookup qualifier with
    | some [] => none
    | some uri => some (String.ofList uri)
    | none => none

/-- A name as written, cut at its first colon into qualifier and local name. -/
def splitName (name : List Char) : Option (List Char) × List Char :=
  match cutFirst? ':' name with
  | some (qualifier, localName) => (some qualifier, localName)
  | none => (none, name)

/-- The name of an element: without qualifier it is in the default namespace. -/
def elementName (scopes : List Declarations) (name : List Char) : QName :=
  let (qualifier, localName) := splitName name
  QName.ofParts (resolveQualifier scopes (qualifier.getD [])) (qualifier.map String.ofList)
    (String.ofList localName)

/-- The name of an attribute: declarations have a namespace of their own, and without
qualifier there is none. -/
def attrName (scopes : List Declarations) (key : List Char) : QName :=
  let (qualifier, localName) := splitName key
  let ns :=
    match qualifier with
    | none => if localName = "xmlns".toList then some Namespace.declarations else none
    | some qualifier =>
        if qualifier = "xmlns".toList then some Namespace.declarations
        else resolveQualifier scopes qualifier
  QName.ofParts ns (qualifier.map String.ofList) (String.ofList localName)

/-- An element whose end tag is still to come. -/
structure Frame where
  /-- The name as its start tag shows it. -/
  written : List Char
  name : QName
  attrs : List Attr
  declarations : Declarations
  /-- The children so far, the last one first. -/
  children : List Node

namespace Frame

/-- The frame of a start tag inside the elements of `outer`. -/
def ofTag (outer : List Frame) (tag : Tag) : Frame :=
  let declarations := tag.attrs.filterMap RawAttr.declaration?
  let scopes := declarations :: outer.map (·.declarations)
  { written := tag.name
    name := elementName scopes tag.name
    attrs := tag.attrs.map fun attr => ⟨attrName scopes attr.key, String.ofList attr.value⟩
    declarations
    children := [] }

/-- Put a node behind the children. -/
def push (frame : Frame) (node : Node) : Frame :=
  { frame with children := node :: frame.children }

/-- Put text behind the children; it continues a text that stands last. -/
def pushText (frame : Frame) (content : List Char) : Frame :=
  match frame.children with
  | .text before :: others =>
      { frame with children := .text (before ++ String.ofList content) :: others }
  | _ => frame.push (.text (String.ofList content))

/-- Whether a node is a text of blanks only. -/
def isBlankTextNode (node : Node) : Bool :=
  node.text?.any fun content => isBlankText content.toList

/-- Among elements, texts of blanks only are indentation and not content. -/
def dropIndentation (children : List Node) : List Node :=
  if children.any Node.isElement then children.filter (!isBlankTextNode ·) else children

/-- The element of a frame whose end tag has come. -/
def close (frame : Frame) : Node :=
  .element frame.name frame.attrs (dropIndentation frame.children.reverse)

end Frame

/-- How far the reading of a document has come. -/
structure ReadState where
  /-- The open elements, the innermost first. -/
  frames : List Frame
  root : Option Node

namespace ReadState

/-- Nothing has been read yet. -/
def initial : ReadState := ⟨[], none⟩

/-- Put a closed element where it belongs. -/
def place (outer : List Frame) (root : Option Node) (node : Node) : ReadState :=
  match outer with
  | [] => ⟨[], some node⟩
  | frame :: outer => ⟨frame.push node :: outer, root⟩

/-- The frame of a start tag, where an element may start. -/
def openFrame (state : ReadState) (content : List Char) : Except Fault Frame :=
  match Tag.read content with
  | .error fault => .error (.malformed fault)
  | .ok tag =>
      if state.frames.isEmpty && state.root.isSome then
        .error (.malformed .severalRoots)
      else
        .ok (Frame.ofTag state.frames tag)

/-- Put text into the innermost element; outside the root it is dropped. -/
def pushText (state : ReadState) (content : List Char) : ReadState :=
  match state.frames with
  | [] => state
  | frame :: outer => { state with frames := frame.pushText content :: outer }

/-- Put a comment into the innermost element; outside the root it is dropped. -/
def pushComment (state : ReadState) (content : List Char) : ReadState :=
  match state.frames with
  | [] => state
  | frame :: outer =>
      { state with frames := frame.push (.comment (String.ofList content)) :: outer }

/-- Close the innermost element with the end tag `name`. -/
def close (state : ReadState) (name : List Char) : Except Fault ReadState :=
  match state.frames with
  | [] => .error (.lexical (.unmatchedEnd (String.ofList name)))
  | frame :: outer =>
      if name = frame.written then
        .ok (place outer state.root frame.close)
      else
        .error (.lexical
          (.mismatchedEnd (String.ofList frame.written) (String.ofList name)))

/-- Take the next lexical unit. -/
def take (state : ReadState) : Lexeme → Except Fault ReadState
  | .startTag content =>
      (state.openFrame content).map fun frame =>
        { state with frames := frame :: state.frames }
  | .emptyTag content =>
      (state.openFrame content).map fun frame => place state.frames state.root frame.close
  | .endTag name => state.close name
  | .text content => .ok (state.pushText content)
  | .characterData content => .ok (state.pushText content)
  | .comment content => .ok (state.pushComment content)
  | .reference name =>
      match resolveReference? name with
      | some char => .ok (state.pushText [char])
      | none => .error (.malformed (.unknownReference (String.ofList name)))
  | .ignored => .ok state

/-- Take all the lexical units of a text. -/
def takeAll (state : ReadState) (text : List Char) : Except Fault ReadState :=
  match text with
  | [] => .ok state
  | char :: rest =>
      match _step : Lexeme.next char rest with
      | .error fault => .error (.lexical fault)
      | .ok (lexeme, after) =>
          match state.take lexeme with
          | .error fault => .error fault
          | .ok next => next.takeAll after
termination_by text.length
decreasing_by exact Lexeme.length_lt_of_next _step

/-- The document that has been read. -/
def finish (state : ReadState) : Except Fault Node :=
  match state.frames, state.root with
  | _ :: _, _ => .error (.malformed .unclosedElement)
  | [], none => .error (.malformed .noRoot)
  | [], some root => .ok root

end ReadState

/-- A text without the byte order mark at its start. -/
def dropMark : List Char → List Char
  | '\uFEFF' :: rest => rest
  | text => text

/-- Read a document from a text. -/
def readText (text : List Char) : Except Fault Node := do
  let state ← ReadState.initial.takeAll (dropMark text)
  state.finish

end TemplateFill.Markup
