import TemplateFill.Text.Bytes

/-!
# Code page 437

The names of old archives are in this code page.  Its lower half is ASCII.
-/

namespace TemplateFill.Archive

/-- The upper half of the code page in order. -/
def codePageUpper : List Char :=
  ("ÇüéâäàåçêëèïîìÄÅÉæÆôöòûùÿÖÜ¢£¥₧ƒáíóúñÑªº¿⌐¬½¼¡«»░▒▓│┤╡╢╖╕╣║╗╝╜╛┐└┴┬├─┼╞╟╚╔╩╦╠═╬╧╨╤╥╙╘╒╓╫╪┘┌█▄▌▐▀" ++
    "αßΓπΣσµτΦΘΩδ∞φε∩≡±≥≤⌠⌡÷≈°∙·√ⁿ²■\u00A0").toList

/-- The character of a byte. -/
def codePageChar (byte : UInt8) : Char :=
  if byte < 128 then Char.ofNat byte.toNat
  else codePageUpper.getD (byte.toNat - 128) ' '

/-- The text of a byte sequence. -/
def decodeCodePage (bytes : Bytes) : List Char := bytes.map codePageChar

end TemplateFill.Archive
