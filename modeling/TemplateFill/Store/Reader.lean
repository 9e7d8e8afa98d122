import TemplateFill.Markup.Encoding
import TemplateFill.Store.Basic

/-!
# Reading into stores

The lexical units of a text build a store one after the other.  A start tag adds an element
below the innermost open one, text continues a text that stands last there, and the end tag of
an element takes indentation out of its children, so that texts can be left without a parent.
-/

namespace TemplateFill

open TemplateFill.Text TemplateFill.Markup

/-- Whether a node with this label is a text of blanks only. -/
def Label.isBlankText (label : Label) : Bool :=
  label.text?.any fun content => Text.isBlankText content.toList

namespace NodeStore

/-- Change the label of a node. -/
def setLabel (store : NodeStore) (id : NodeId) (label : Label) : NodeStore :=
  store.update id fun slot => { slot with label := label }

/-- Add a node as the last child of `parent`. -/
def addBelow (store : NodeStore) (parent : NodeId) (label : Label) : NodeStore :=
  let added := store.alloc label
  added.1.append parent added.2

/-- Put text behind the children of `parent`; it continues a text that stands last. -/
def pushText (store : NodeStore) (parent : NodeId) (content : String) : NodeStore :=
  match (store.children parent).getLast?.map fun last => (last, store.label last) with
  | some (last, .text before) => store.setLabel last (.text (before ++ content))
  | _ => store.addBelow parent (.text content)

/-- Among elements, children that are texts of blanks only become detached. -/
def dropIndentation (store : NodeStore) (id : NodeId) : NodeStore :=
  let children := store.children id
  let kept := children.filter fun child => !(store.label child).isBlankText
  if children.any (fun child => (store.label child).name?.isSome) &&
      kept.length != children.length then
    store.setChildren id kept
  else store

end NodeStore

/-- How far the reading of a document into a store has come. -/
structure StoreReader where
  store : NodeStore
  /-- The open elements, the innermost first, with what their start tags say. -/
  opened : List (NodeId × Frame)
  root : Option NodeId

namespace StoreReader

/-- Nothing has been read yet. -/
def initial : StoreReader := ⟨.empty, [], none⟩

/-- What a start tag says, where an element may start. -/
def openFrame (reader : StoreReader) (content : List Char) : Except Fault Frame :=
  match Tag.read content with
  | .error fault => .error (.malformed fault)
  | .ok tag =>
      if reader.opened.isEmpty && reader.root.isSome then
        .error (.malformed .severalRoots)
      else
        .ok (Frame.ofTag (reader.opened.map (·.2)) tag)

/-- Add an element below the innermost open one, or as the root. -/
def addElement (reader : StoreReader) (label : Label) : StoreReader :=
  match reader.opened with
  | [] =>
      let added := reader.store.alloc label
      { reader with store := added.1, root := some added.2 }
  | (parent, _) :: _ => { reader with store := reader.store.addBelow parent label }

/-- Add the element of a start tag and keep it open. -/
def openElement (reader : StoreReader) (frame : Frame) : StoreReader :=
  { reader.addElement (.element frame.name frame.attrs) with
    opened := (reader.store.size, frame) :: reader.opened }

/-- Put text into the innermost element; outside the root it is dropped. -/
def pushText (reader : StoreReader) (content : List Char) : StoreReader :=
  match reader.opened with
  | [] => reader
  | (parent, _) :: _ =>
      { reader with store := reader.store.pushText parent (String.ofList content) }

/-- Put a comment into the innermost element; outside the root it is dropped. -/
def pushComment (reader : StoreReader) (content : List Char) : StoreReader :=
  match reader.opened with
  | [] => reader
  | (parent, _) :: _ =>
      { reader with store := reader.store.addBelow parent (.comment (String.ofList content)) }

/-- Close the innermost element with the end tag `name`. -/
def close (reader : StoreReader) (name : List Char) : Except Fault StoreReader :=
  match reader.opened with
  | [] => .error (.lexical (.unmatchedEnd (String.ofList name)))
  | (id, frame) :: outer =>
      if name = frame.written then
        .ok { reader with store := reader.store.dropIndentation id, opened := outer }
      else
        .error (.lexical
          (.mismatchedEnd (String.ofList frame.written) (String.ofList name)))

/-- Take the next lexical unit. -/
def take (reader : StoreReader) : Lexeme → Except Fault StoreReader
  | .startTag content => (reader.openFrame content).map reader.openElement
  | .emptyTag content =>
      (reader.openFrame content).map fun frame =>
        reader.addElement (.element frame.name frame.attrs)
  | .endTag name => reader.close name
  | .text content => .ok (reader.pushText content)
  | .characterData content => .ok (reader.pushText content)
  | .comment content => .ok (reader.pushComment content)
  | .reference name =>
      match resolveReference? name with
      | some char => .ok (reader.pushText [char])
      | none => .error (.malformed (.unknownReference (String.ofList name)))
  | .ignored => .ok reader

/-- Take all the lexical units of a text. -/
def takeAll (reader : StoreReader) (text : List Char) : Except Fault StoreReader :=
  match text with
  | [] => .ok reader
  | char :: rest =>
      match _step : Lexeme.next char rest with
      | .error fault => .error (.lexical fault)
      | .ok (lexeme, after) =>
          match reader.take lexeme with
          | .error fault => .error fault
          | .ok next => next.takeAll after
termination_by text.length
decreasing_by exact Lexeme.length_lt_of_next _step

/-- The store of the document that has been read. -/
def finish (reader : StoreReader) : Except Fault NodeStore :=
  match reader.opened, reader.root with
  | _ :: _, _ => .error (.malformed .unclosedElement)
  | [], none => .error (.malformed .noRoot)
  | [], some root => .ok (reader.store.setRoot root)

end StoreReader

namespace NodeStore

/-- Read a document from a text into a store. -/
def readText (text : List Char) : Except Fault NodeStore := do
  let reader ← StoreReader.initial.takeAll (dropMark text)
  reader.finish

/-- Read a document from the bytes of a part into a store. -/
def readBytes (bytes : Bytes) : Except Fault NodeStore :=
  match decodeText bytes with
  | .ok text => readText text
  | .error fault => .error (.malformed fault)

end NodeStore

end TemplateFill
