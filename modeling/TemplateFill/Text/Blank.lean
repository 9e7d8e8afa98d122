/-!
# Blank characters

Two notions of blank are in use.  Markup itself separates its parts by four
ASCII characters only; text content and marker ids follow the Unicode property
White_Space.
-/

namespace TemplateFill.Text

/-- Space, tab, carriage return and line feed: the blanks between the parts of a
tag. -/
def isMarkupBlank (char : Char) : Bool :=
  char == ' ' || char == '\t' || char == '\r' || char == '\n'

/-- The ranges of code points with the Unicode property White_Space. -/
def blankRanges : List (Nat × Nat) :=
  [(0x09, 0x0D), (0x20, 0x20), (0x85, 0x85), (0xA0, 0xA0), (0x1680, 0x1680),
   (0x2000, 0x200A), (0x2028, 0x2029), (0x202F, 0x202F), (0x205F, 0x205F),
   (0x3000, 0x3000)]

/-- A character with the Unicode property White_Space. -/
def isBlank (char : Char) : Bool :=
  blankRanges.any fun range => range.1 ≤ char.toNat && char.toNat ≤ range.2

/-- A text all of whose characters are blank; the empty text is one. -/
def isBlankText (text : List Char) : Bool :=
  text.all isBlank

/-- Drop the blanks at both ends. -/
def trim (text : List Char) : List Char :=
  ((text.dropWhile isBlank).reverse.dropWhile isBlank).reverse

/-- Drop the trailing markup blanks of a name, unless it is blank throughout. -/
def trimMarkupEnd (name : List Char) : List Char :=
  match name.reverse.dropWhile isMarkupBlank with
  | [] => name
  | kept => kept.reverse

end TemplateFill.Text
