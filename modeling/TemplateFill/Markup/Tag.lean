import TemplateFill.Markup.Fault
import TemplateFill.Text.Blank

/-!
# Tags

The content of a start tag is a name and attributes.  A name ends at the first blank.  An
attribute is a key, an equals sign and a quoted value, with blanks allowed around the
sign; no two attributes of a tag have the same key.
-/

namespace TemplateFill.Markup

open TemplateFill.Text

/-- An attribute as a tag shows it, with its value unescaped. -/
structure RawAttr where
  key : List Char
  value : List Char
  deriving DecidableEq, Repr

/-- A start tag as markup shows it. -/
structure Tag where
  name : List Char
  attrs : List RawAttr
  deriving DecidableEq, Repr

/-- A character of an attribute key behind its first one. -/
def isKeyChar (char : Char) : Bool := char != '=' && !isMarkupBlank char

/-- A text without its leading blanks, and the position after them. -/
def skipBlanks (position : Nat) (text : List Char) : Nat × List Char :=
  (position + (text.takeWhile isMarkupBlank).length, text.dropWhile isMarkupBlank)

/-- An attribute in front of other text. -/
structure AttrFront where
  /-- Where the key starts. -/
  start : Nat
  key : List Char
  /-- The value as written. -/
  value : List Char
  /-- The position after the closing quote. -/
  stop : Nat
  /-- What follows the closing quote. -/
  rest : List Char

/-- The value of the attribute `key`, from what follows its equals sign on. -/
def readValue (start : Nat) (key : List Char) (position : Nat) (text : List Char) :
    Except AttributeFault AttrFront :=
  match skipBlanks position text with
  | (position, []) => .error (.missingValue position)
  | (position, quote :: rest) =>
      if quote = '\'' ∨ quote = '"' then
        let value := rest.takeWhile (· != quote)
        let stop := position + 1 + byteLength value
        match rest.dropWhile (· != quote) with
        | [] => .error (.missingQuote stop quote)
        | _ :: rest => .ok ⟨start, key, value, stop + 1, rest⟩
      else .error (.unquotedValue position)

/-- The attribute that starts with `char` at `start`; `known` are the keys before it and
where they start. -/
def readAttr (known : List (List Char × Nat)) (start : Nat) (char : Char) (rest : List Char) :
    Except AttributeFault AttrFront :=
  let key := char :: rest.takeWhile isKeyChar
  match skipBlanks (start + byteLength key) (rest.dropWhile isKeyChar) with
  | (position, '=' :: rest) =>
      match known.lookup key with
      | some previous => .error (.duplicated start previous)
      | none => readValue start key (position + 1) rest
  | (position, _) => .error (.missingEquals position)

theorem length_lt_of_readValue {start position : Nat} {key text : List Char}
    {front : AttrFront} (read : readValue start key position text = .ok front) :
    front.rest.length < text.length := by
  unfold readValue skipBlanks at read
  have blanks := (List.dropWhile_suffix isMarkupBlank (l := text)).length_le
  split at read
  · simp at read
  · rename_i other quote rest equal
    simp only [Prod.mk.injEq] at equal
    rw [equal.2] at blanks
    simp only at read
    split at read
    · split at read
      · simp at read
      · rename_i closing tail found
        simp only [Except.ok.injEq] at read
        have inner := (List.dropWhile_suffix (· != quote) (l := rest)).length_le
        rw [found] at inner
        subst read
        simp only [List.length_cons] at *
        omega
    · simp at read

theorem length_lt_of_readAttr {known : List (List Char × Nat)} {start : Nat} {char : Char}
    {rest : List Char} {front : AttrFront}
    (read : readAttr known start char rest = .ok front) : front.rest.length < rest.length := by
  unfold readAttr skipBlanks at read
  simp only at read
  have key := (List.dropWhile_suffix isKeyChar (l := rest)).length_le
  have blanks := (List.dropWhile_suffix isMarkupBlank (l := rest.dropWhile isKeyChar)).length_le
  split at read
  · rename_i position tail equal
    simp only [Prod.mk.injEq] at equal
    rw [equal.2] at blanks
    split at read
    · simp at read
    · have := length_lt_of_readValue read
      simp only [List.length_cons] at blanks
      omega
  · simp at read

/-- Read the attributes of a tag at `position`, after the attributes `done` (in reverse);
`known` are the keys so far and where they start. -/
def readAttrs (known : List (List Char × Nat)) (done : List RawAttr) (position : Nat)
    (text : List Char) : Except Malformation (List RawAttr) :=
  match _blanks : skipBlanks position text with
  | (_, []) => .ok done.reverse
  | (start, char :: rest) =>
      match _read : readAttr known start char rest with
      | .error fault => .error (.attribute fault)
      | .ok front =>
          match unescape front.value with
          | .error fault => .error (.value fault)
          | .ok value =>
              readAttrs ((front.key, start) :: known) (⟨front.key, value⟩ :: done) front.stop
                front.rest
termination_by text.length
decreasing_by
  have shorter := length_lt_of_readAttr _read
  have skipped := (List.dropWhile_suffix isMarkupBlank (l := text)).length_le
  simp only [skipBlanks, Prod.mk.injEq] at _blanks
  rw [_blanks.2, List.length_cons] at skipped
  omega

/-- Read the content of a start tag. -/
def Tag.read (content : List Char) : Except Malformation Tag :=
  let name := content.takeWhile (!isMarkupBlank ·)
  (readAttrs [] [] (byteLength name) (content.dropWhile (!isMarkupBlank ·))).map (⟨name, ·⟩)

end TemplateFill.Markup
