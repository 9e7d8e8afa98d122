import TemplateFill.Markup.Reference
import TemplateFill.Text.Utf8

/-!
# Faults of markup

Why a text is not a document.  Lexical faults are found while cutting the text into tags,
texts and the like, and while matching end tags; all others are malformations.
-/

namespace TemplateFill.Markup

/-- A fault in the division of the text into lexical units. -/
inductive LexicalFault where
  | unclosedTag
  | unknownMarkup
  | unclosedCharacterData
  | unclosedComment
  | unclosedDoctype
  | unclosedInstruction
  | unclosedDeclaration
  | unclosedQuote (quote : Char)
  | namelessDoctype
  | mismatchedEnd (expected found : String)
  | unmatchedEnd (name : String)
  | unclosedReference
  deriving DecidableEq, Repr

/-- The wording of a lexical fault. -/
def LexicalFault.message : LexicalFault → String
  | .unclosedTag => "syntax error: tag not closed: `>` not found before end of input"
  | .unknownMarkup => "syntax error: unknown or missed symbol in markup"
  | .unclosedCharacterData =>
      "syntax error: CDATA not closed: `]]>` not found before end of input"
  | .unclosedComment => "syntax error: comment not closed: `-->` not found before end of input"
  | .unclosedDoctype => "syntax error: DOCTYPE not closed: `>` not found before end of input"
  | .unclosedInstruction =>
      "syntax error: processing instruction not closed: `?>` not found before end of input"
  | .unclosedDeclaration =>
      "syntax error: XML declaration not closed: `?>` not found before end of input"
  | .unclosedQuote quote =>
      s!"syntax error: attribute value not closed: `{quote}` not found before end of input"
  | .namelessDoctype =>
      "ill-formed document: `<!DOCTYPE>` declaration does not contain a name of a document type"
  | .mismatchedEnd expected found =>
      s!"ill-formed document: expected `</{expected}>`, but `</{found}>` was found"
  | .unmatchedEnd name =>
      s!"ill-formed document: close tag `</{name}>` does not match any open tag"
  | .unclosedReference =>
      "ill-formed document: entity or character reference not closed: `;` not found before end of input"

/-- A fault in the attributes of a tag.  Positions count bytes in the tag. -/
inductive AttributeFault where
  | missingEquals (position : Nat)
  | duplicated (position previous : Nat)
  | missingValue (position : Nat)
  | unquotedValue (position : Nat)
  | missingQuote (position : Nat) (quote : Char)
  deriving DecidableEq, Repr

/-- The wording of an attribute fault. -/
def AttributeFault.message : AttributeFault → String
  | .missingEquals position =>
      s!"position {position}: attribute key must be directly followed by `=` or space"
  | .duplicated position previous =>
      s!"position {position}: duplicated attribute, previous declaration at position {previous}"
  | .missingValue position =>
      s!"position {position}: `=` must be followed by an attribute value"
  | .unquotedValue position =>
      s!"position {position}: attribute value must be enclosed in `\"` or `'`"
  | .missingQuote position quote =>
      s!"position {position}: missing closing quote `{quote}` in attribute value"

/-- Any other fault of a document. -/
inductive Malformation where
  | attribute (fault : AttributeFault)
  | value (fault : ValueFault)
  | unknownReference (name : String)
  | severalRoots
  | unclosedElement
  | noRoot
  /-- Bytes that the encoding announced by a byte order mark does not allow. -/
  | encoding (label : String)
  /-- Bytes without byte order mark that are not UTF-8. -/
  | utf8 (fault : Utf8.Fault)
  deriving DecidableEq, Repr

/-- The wording of a malformation. -/
def Malformation.message : Malformation → String
  | .attribute fault => fault.message
  | .value fault => fault.message
  | .unknownReference name => s!"unknown entity &{name};"
  | .severalRoots => "multiple root elements"
  | .unclosedElement => "unclosed element"
  | .noRoot => "no root element"
  | .encoding label => s!"invalid {label} byte sequence"
  | .utf8 fault => fault.message

/-- Why a text is not a document. -/
inductive Fault where
  | lexical (fault : LexicalFault)
  | malformed (fault : Malformation)
  deriving DecidableEq, Repr

/-- The wording of a fault. -/
def Fault.message : Fault → String
  | .lexical fault => "XML parsing error: " ++ fault.message
  | .malformed fault => "Malformed XML: " ++ fault.message

end TemplateFill.Markup
