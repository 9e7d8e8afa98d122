/-!
# Pretty printed JSON

Lists of texts and flat objects on several lines, each item on a line of its own, two
blanks further to the right than the brackets.
-/

namespace TemplateFill.CommandLine

/-- The two digits of a number below 256 in base sixteen. -/
def twoHexDigits (number : Nat) : List Char :=
  [Nat.digitChar (number / 16), Nat.digitChar (number % 16)]

/-- A character in a quoted text.  Quotes, backslashes and control characters are
escaped. -/
def quoteChar (char : Char) : List Char :=
  if char = '"' then ['\\', '"']
  else if char = '\\' then ['\\', '\\']
  else if char = '\n' then ['\\', 'n']
  else if char = '\r' then ['\\', 'r']
  else if char = '\t' then ['\\', 't']
  else if char = '\x08' then ['\\', 'b']
  else if char = '\x0c' then ['\\', 'f']
  else if char.toNat < 32 then ['\\', 'u', '0', '0'] ++ twoHexDigits char.toNat
  else [char]

/-- A text in quotes. -/
def quoted (text : String) : String :=
  String.ofList ('"' :: text.toList.flatMap quoteChar ++ ['"'])

/-- Items between brackets, each on a line of its own. -/
def bracketed (opening closing : String) (items : List String) : String :=
  if items.isEmpty then opening ++ closing
  else opening ++ "\n" ++ String.intercalate ",\n" (items.map ("  " ++ ·)) ++ "\n" ++ closing

/-- A list of texts. -/
def prettyList (texts : List String) : String := bracketed "[" "]" (texts.map quoted)

/-- An object from its keys and the values as they are to be printed. -/
def prettyObject (fields : List (String × String)) : String :=
  bracketed "\x7b" "\x7d" (fields.map fun field => quoted field.1 ++ ": " ++ field.2)

end TemplateFill.CommandLine
