import TemplateFill.Markup.Encoding
import TemplateFill.Proofs.Markup.Outline
import TemplateFill.Proofs.Markup.Reread
import TemplateFill.Proofs.Text.Utf8

/-!
# Written documents are read back

A document with legal names and comments, whose names have the namespaces of their scopes and
whose texts reading keeps, is read back from the bytes it is written to.
-/

namespace TemplateFill

open Markup

namespace Markup

/-! ## The frame of a document -/

/-- Bytes that start with a tag start with no byte order mark, so they are read as UTF-8. -/
theorem decodeText_encode (text : List Char) :
    decodeText (Utf8.encode ('<' :: text)) = .ok ('<' :: text) := by
  have bytes : Utf8.encode ('<' :: text) = 0x3C :: Utf8.encode text := by
    rw [Utf8.encode, List.flatMap_cons]
    rfl
  have decoded : Utf8.decode (Utf8.encode ('<' :: text)) = .ok ('<' :: text) :=
    Utf8.decode_encode _
  rw [decodeText.eq_def]
  split
  · rename_i same
    rw [bytes] at same
    cases same
  · rename_i same
    rw [bytes] at same
    cases same
  · rename_i same
    rw [bytes] at same
    cases same
  · rw [decoded]
    rfl

theorem readBytes_encode (text : List Char) :
    readBytes (Utf8.encode ('<' :: text)) = readText ('<' :: text) := by
  rw [readBytes, decodeText_encode]

/-- A written document starts with a tag. -/
theorem decodeText_toBytes (root : Node) : decodeText root.toBytes = .ok root.toDocument :=
  decodeText_encode (Node.declaration.tail ++ root.write)

theorem readBytes_eq_readText (root : Node) :
    readBytes root.toBytes = readText root.toDocument := by
  rw [readBytes, decodeText_toBytes]

theorem readText_cons (text : List Char) :
    readText ('<' :: text) = ReadState.initial.takeAll ('<' :: text) >>= ReadState.finish := by
  rw [readText, dropMark]
  exact fun _ same => absurd (List.cons.inj same).1 (by decide)

/-- The declaration at the start of a document is passed over. -/
theorem readText_declared (text : List Char) :
    readText (Node.declaration ++ text) = ReadState.initial.takeAll text >>= ReadState.finish := by
  have front : ∃ rest, Node.declaration ++ text = '<' :: rest ∧
      Lexeme.next '<' rest = .ok (.ignored, text) := ⟨_, rfl, rfl⟩
  rcases front with ⟨rest, declared, unit⟩
  have passed : ReadState.initial.takeAll ('<' :: rest) = ReadState.initial.takeAll text :=
    ReadState.takeAll_of_next unit rfl
  rw [declared, readText_cons, passed]

/-- An element is written from its tag on. -/
theorem exists_write_eq_cons {node : Node} (element : node.isElement = true) :
    ∃ rest, node.write = '<' :: rest := by
  cases node with
  | element name attrs children => cases children <;> exact ⟨_, rfl⟩
  | text | comment => cases element

/-- What is read can be compared by its outline. -/
theorem readText_of_outline {text : List Char} {result : Except Fault Node}
    (same : (readText text).map Node.outline = result.map Node.outline) :
    readText text = result := by
  cases read : readText text with
  | error fault =>
      rw [read] at same
      cases result <;> cases same
      rfl
  | ok node =>
      rw [read] at same
      cases result with
      | error fault => cases same
      | ok other => rw [Node.outline_inj.1 (Except.ok.inj same)]

theorem readBytes_of_outline {root result : Node}
    (same : (readText root.toDocument).map Node.outline = .ok result.outline) :
    readBytes root.toBytes = .ok result := by
  rw [readBytes_eq_readText]
  exact readText_of_outline same

/-- Only what stands behind the declaration can differ between written documents. -/
theorem toBytes_inj {left right : Node} :
    left.toBytes = right.toBytes ↔ left.write = right.write := by
  constructor
  · intro same
    have decoded := decodeText_toBytes left
    rw [same, decodeText_toBytes] at decoded
    exact (List.append_cancel_left (Except.ok.inj decoded)).symm
  · intro same
    rw [Node.toBytes, Node.toBytes, Node.toDocument, Node.toDocument, same]

end Markup

namespace Writable

variable {root : Node}

/-- Reading a written document joins its texts. -/
theorem readText_toDocument (writable : Writable [] root) (element : root.isElement = true) :
    readText root.toDocument = .ok root.reread := by
  have taken : ReadState.initial.takeAll (root.write ++ []) =
      (ReadState.place [] none root.reread).takeAll [] :=
    ReadState.takeAll_write writable element rfl rfl []
  rw [List.append_nil, ReadState.place, ReadState.takeAll] at taken
  rw [Node.toDocument, readText_declared, taken]
  rfl

theorem readBytes_eq_reread (writable : Writable [] root) (element : root.isElement = true) :
    readBytes root.toBytes = .ok root.reread := by
  rw [readBytes_eq_readText]
  exact writable.readText_toDocument element

end Writable

namespace Readable

variable {root : Node}

theorem readText_toDocument (readable : Readable [] root) (element : root.isElement = true) :
    readText root.toDocument = .ok root := by
  rw [readable.writable.readText_toDocument element, Node.reread_eq_self readable.texts]

/-- The declaration is not needed to read a document back. -/
theorem readText_write (readable : Readable [] root) (element : root.isElement = true) :
    readText root.write = .ok root := by
  have whole := readable.readText_toDocument element
  rcases exists_write_eq_cons element with ⟨rest, same⟩
  rw [Node.toDocument, readText_declared, same] at whole
  rw [same, readText_cons, whole]

/-- Writing a document and reading the bytes gives the document.  It is a `Node`: what is below a
text or a comment of a `NodeStore` could not be written. -/
theorem readBytes_toBytes (readable : Readable [] root) (element : root.isElement = true) :
    readBytes root.toBytes = .ok root := by
  rw [readBytes, decodeText_toBytes]
  exact readable.readText_toDocument element

end Readable

/-- A document with markup, line ends and characters of four bytes in its texts and values, a
comment that starts with a bracket, and a default namespace that is taken back below the root. -/
def lettered : Node :=
  .element ⟨some "urn:d", none, "doc"⟩
    [⟨⟨some Namespace.declarations, none, "xmlns"⟩, "urn:d"⟩,
      ⟨⟨some Namespace.declarations, some "xmlns", "q"⟩, "urn:q"⟩]
    [.element ⟨some "urn:q", some "q", "a"⟩
        [⟨⟨none, none, "k"⟩, "\"<&'>\r\n\t"⟩, ⟨⟨some Namespace.xml, some "xml", "space"⟩, "𝒳"⟩]
        [.text "]]> &amp; 𝒳\r\n\t"],
      .comment "> - <",
      .element ⟨none, none, "b"⟩ [⟨⟨some Namespace.declarations, none, "xmlns"⟩, ""⟩] []]

/-- The document of the sample is read back. -/
theorem readBytes_lettered :
    Readable [] lettered ∧ lettered.isElement = true ∧
      readBytes lettered.toBytes = .ok lettered := by
  have readable : Readable [] lettered := by
    constructor
    · exact show ∀ inner ∈ lettered.selfAndDescendants, inner.label.Legal by decide
    · exact show ∀ inner ∈ lettered.selfAndDescendants, (inner.label.attrs.map (·.name)).Nodup by
        decide
    · decide
    · refine .element (by decide) (by decide) ?_
      rw [List.forall_mem_cons, List.forall_mem_cons, List.forall_mem_singleton]
      refine ⟨.element (by decide) (by decide) ?_, .comment, .element (by decide) (by decide) ?_⟩
      · rw [List.forall_mem_singleton]
        exact .text
      · exact fun _ none => absurd none List.not_mem_nil
  exact ⟨readable, rfl, readable.readBytes_toBytes rfl⟩

/-- A text without an element around it is written, but what is written has no root. -/
theorem readBytes_loneText :
    Readable [] (.text "abc") ∧
      readBytes (Node.text "abc").toBytes = .error (.malformed .noRoot) := by
  constructor
  · constructor
    · exact Node.everyLabel_text.2 trivial
    · exact Node.everyLabel_text.2 List.nodup_nil
    · decide
    · exact .text
  · have written : (Node.text "abc").write = 'a' :: ['b', 'c'] := rfl
    have unit : Lexeme.next 'a' ['b', 'c'] = .ok (.text ['a', 'b', 'c'], []) := rfl
    rw [readBytes, decodeText_toBytes]
    simp only
    rw [Node.toDocument, readText_declared, written, ReadState.takeAll_of_next unit rfl,
      ReadState.takeAll]
    rfl

end TemplateFill
