import TemplateFill.Markup.Reader
import TemplateFill.Text.Utf16

/-!
# Documents in bytes

A byte order mark announces UTF-8 or either order of UTF-16; bytes without a mark are in
UTF-8.
-/

namespace TemplateFill.Markup

/-- The text of a part. -/
def decodeText (bytes : Bytes) : Except Malformation (List Char) :=
  match bytes with
  | 0xEF :: 0xBB :: 0xBF :: rest =>
      (Utf8.decode rest).mapError fun _ => .encoding "UTF-8"
  | 0xFF :: 0xFE :: rest =>
      match Utf16.decode? .little rest with
      | some text => .ok text
      | none => .error (.encoding "UTF-16LE")
  | 0xFE :: 0xFF :: rest =>
      match Utf16.decode? .big rest with
      | some text => .ok text
      | none => .error (.encoding "UTF-16BE")
  | _ => (Utf8.decode bytes).mapError .utf8

/-- Read a document from the bytes of a part. -/
def readBytes (bytes : Bytes) : Except Fault Node :=
  match decodeText bytes with
  | .ok text => readText text
  | .error fault => .error (.malformed fault)

end TemplateFill.Markup
