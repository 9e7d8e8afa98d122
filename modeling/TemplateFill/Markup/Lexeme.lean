import TemplateFill.Markup.Fault
import TemplateFill.Text.Blank
import TemplateFill.Text.Cut

/-!
# Lexical units

A text is cut into tags, texts, references, character data and comments.  `Lexeme.next`
takes the first unit off; what is left is shorter, so that a text is used up in finitely
many steps.  Document type declarations and processing instructions are units without
content.
-/

namespace TemplateFill.Markup

open TemplateFill.Text

/-- A lexical unit. -/
inductive Lexeme where
  /-- A start tag, without its angle brackets. -/
  | startTag (content : List Char)
  /-- A tag that is start and end at once, without its angle brackets and slash. -/
  | emptyTag (content : List Char)
  | endTag (name : List Char)
  | text (content : List Char)
  /-- Character data, which is text that holds no references. -/
  | characterData (content : List Char)
  | comment (content : List Char)
  /-- A reference in running text. -/
  | reference (name : List Char)
  /-- A document type declaration or a processing instruction. -/
  | ignored
  deriving DecidableEq, Repr

/-- The content of a tag and what follows its closing bracket, the first one outside
quotes; `quote` is the quote that is open. -/
def cutTag (quote : Option Char) : List Char → Except LexicalFault (List Char × List Char)
  | [] =>
      match quote with
      | none => .error .unclosedTag
      | some quote => .error (.unclosedQuote quote)
  | char :: rest =>
      match quote with
      | some closing =>
          (cutTag (if char = closing then none else some closing) rest).map fun cut =>
            (char :: cut.1, cut.2)
      | none =>
          if char = '>' then
            .ok ([], rest)
          else
            (cutTag (if char = '\'' ∨ char = '"' then some char else none) rest).map fun cut =>
              (char :: cut.1, cut.2)

/-- A place in a document type declaration. -/
inductive DoctypePlace where
  /-- Before the internal subset. -/
  | head
  /-- Inside a quoted text before the internal subset. -/
  | headQuote (quote : Char)
  /-- In the internal subset, between its declarations. -/
  | subset
  /-- In the opening of some markup: so many characters are to come before `inside`. -/
  | opening (count : Nat) (inside : DoctypePlace)
  /-- In a comment; so many dashes have just been passed. -/
  | comment (dashes : Nat)
  /-- In a processing instruction; whether a question mark has just been passed. -/
  | instruction (mark : Bool)
  /-- In a declaration whose quoted texts may hold brackets. -/
  | declaration (quote : Option Char)
  /-- In any other markup. -/
  | other
  /-- After the internal subset. -/
  | tail
  deriving DecidableEq, Repr

/-- The place after the bracket that opens `markup` in the internal subset. -/
def DoctypePlace.ofMarkup (markup : List Char) : DoctypePlace :=
  if ['!', '-', '-'].isPrefixOf markup then .opening 3 (.comment 0)
  else if ['?'].isPrefixOf markup then .opening 1 (.instruction false)
  else if ['!', 'E', 'N', 'T', 'I', 'T', 'Y'].isPrefixOf markup then .declaration none
  else if ['!', 'A', 'T', 'T', 'L', 'I', 'S', 'T'].isPrefixOf markup then .declaration none
  else if ['!', 'N', 'O', 'T', 'A', 'T', 'I', 'O', 'N'].isPrefixOf markup then .declaration none
  else .other

/-- What follows a document type declaration, if it is closed. -/
def cutDoctype? : DoctypePlace → List Char → Option (List Char)
  | _, [] => none
  | .head, char :: rest =>
      if char = '>' then some rest
      else if char = '[' then cutDoctype? .subset rest
      else if char = '\'' ∨ char = '"' then cutDoctype? (.headQuote char) rest
      else cutDoctype? .head rest
  | .headQuote quote, char :: rest =>
      cutDoctype? (if char = quote then .head else .headQuote quote) rest
  | .subset, char :: rest =>
      if char = ']' then cutDoctype? .tail rest
      else if char = '<' then cutDoctype? (.ofMarkup rest) rest
      else cutDoctype? .subset rest
  | .opening count inside, _ :: rest =>
      cutDoctype? (if count ≤ 1 then inside else .opening (count - 1) inside) rest
  | .comment dashes, char :: rest =>
      if char = '-' then cutDoctype? (.comment (dashes + 1)) rest
      else if char = '>' ∧ 2 ≤ dashes then cutDoctype? .subset rest
      else cutDoctype? (.comment 0) rest
  | .instruction mark, char :: rest =>
      if char = '>' ∧ mark then cutDoctype? .subset rest
      else cutDoctype? (.instruction (char == '?')) rest
  | .declaration (some quote), char :: rest =>
      cutDoctype? (.declaration (if char = quote then none else some quote)) rest
  | .declaration none, char :: rest =>
      if char = '>' then cutDoctype? .subset rest
      else if char = '\'' ∨ char = '"' then cutDoctype? (.declaration (some char)) rest
      else cutDoctype? (.declaration none) rest
  | .other, char :: rest => cutDoctype? (if char = '>' then .subset else .other) rest
  | .tail, char :: rest => if char = '>' then some rest else cutDoctype? .tail rest

/-- What follows `keyword`, which is written in letters of either case. -/
def stripKeyword? (keyword text : List Char) : Option (List Char) :=
  if (text.take keyword.length).map Char.toUpper = keyword then
    some (text.drop keyword.length)
  else none

namespace Lexeme

/-- A document type declaration, from its exclamation mark on. -/
def nextDoctype (text : List Char) : Except LexicalFault (Lexeme × List Char) :=
  match stripKeyword? ['!', 'D', 'O', 'C', 'T', 'Y', 'P', 'E'] text with
  | none => .error .unclosedDoctype
  | some rest =>
      match cutDoctype? .head rest with
      | none => .error .unclosedDoctype
      | some after =>
          if ['>'].isPrefixOf (rest.dropWhile isMarkupBlank) then .error .namelessDoctype
          else .ok (.ignored, after)

/-- Character data, from its exclamation mark on. -/
def nextCharacterData (text : List Char) : Except LexicalFault (Lexeme × List Char) :=
  match (stripFront? ['!', '[', 'C', 'D', 'A', 'T', 'A', '['] text).bind
      (cutPattern? [']', ']', '>']) with
  | some (content, after) => .ok (.characterData content, after)
  | none => .error .unclosedCharacterData

/-- A comment, from its exclamation mark on. -/
def nextComment (text : List Char) : Except LexicalFault (Lexeme × List Char) :=
  match (stripFront? ['!', '-', '-'] text).bind (cutPattern? ['-', '-', '>']) with
  | some (content, after) => .ok (.comment content, after)
  | none => .error .unclosedComment

/-- The fault of an instruction that is not closed: a declaration of the markup version has
one of its own.  `text` is what follows the question mark. -/
def instructionFault (text : List Char) : LexicalFault :=
  match stripFront? ['x', 'm', 'l'] text with
  | some [] => .unclosedDeclaration
  | some (char :: _) =>
      if isMarkupBlank char ∨ char = '?' then .unclosedDeclaration else .unclosedInstruction
  | none => .unclosedInstruction

/-- A processing instruction, from what follows its question mark on. -/
def nextInstruction (text : List Char) : Except LexicalFault (Lexeme × List Char) :=
  if ['>'].isPrefixOf text then .error .unclosedInstruction
  else
    match cutPattern? ['?', '>'] text with
    | some (_, after) => .ok (.ignored, after)
    | none => .error (instructionFault text)

/-- An end tag, from what follows its slash on. -/
def nextEndTag (text : List Char) : Except LexicalFault (Lexeme × List Char) :=
  (cutTag none text).map fun cut => (.endTag (trimMarkupEnd cut.1), cut.2)

/-- A start or empty tag, from what follows its bracket on. -/
def nextTag (text : List Char) : Except LexicalFault (Lexeme × List Char) :=
  (cutTag none text).map fun cut =>
    if cut.1.getLast? = some '/' then (.emptyTag cut.1.dropLast, cut.2)
    else (.startTag cut.1, cut.2)

/-- The unit that starts with an angle bracket, from what follows the bracket on. -/
def nextMarkup (text : List Char) : Except LexicalFault (Lexeme × List Char) :=
  match text with
  | [] => .error .unclosedTag
  | '!' :: rest =>
      match rest with
      | '[' :: _ => nextCharacterData text
      | '-' :: _ => nextComment text
      | 'D' :: _ => nextDoctype text
      | 'd' :: _ => nextDoctype text
      | _ => .error .unknownMarkup
  | '/' :: rest => nextEndTag rest
  | '?' :: rest => nextInstruction rest
  | _ => nextTag text

/-- A character of running text. -/
def isTextChar (char : Char) : Bool := char != '<' && char != '&'

/-- The first unit of the text `char :: rest`. -/
def next (char : Char) (rest : List Char) : Except LexicalFault (Lexeme × List Char) :=
  if char = '<' then
    nextMarkup rest
  else if char = '&' then
    match cutReference? ['&', '<'] rest with
    | some (name, after) => .ok (.reference name, after)
    | none => .error .unclosedReference
  else
    .ok (.text (char :: rest.takeWhile isTextChar), rest.dropWhile isTextChar)

end Lexeme

/-! ## Every step shortens the text -/

theorem length_lt_of_cutTag {quote : Option Char} {text content after : List Char}
    (cut : cutTag quote text = .ok (content, after)) : after.length < text.length := by
  induction text generalizing quote content with
  | nil => cases quote <;> simp [cutTag] at cut
  | cons char rest ih =>
      have deeper : ∀ {quote : Option Char},
          (cutTag quote rest).map (fun cut => (char :: cut.1, cut.2)) = .ok (content, after) →
          after.length < rest.length + 1 := by
        intro quote found
        cases inner : cutTag quote rest with
        | error fault => simp [inner, Except.map] at found
        | ok pair =>
            simp only [inner, Except.map, Except.ok.injEq, Prod.mk.injEq] at found
            obtain ⟨-, rfl⟩ := found
            exact Nat.lt_succ_of_lt (ih inner)
      cases quote with
      | some closing =>
          simp only [cutTag] at cut
          exact deeper cut
      | none =>
          simp only [cutTag] at cut
          split at cut
          · simp only [Except.ok.injEq, Prod.mk.injEq] at cut
            simp [cut.2]
          · exact deeper cut

theorem length_le_of_cutDoctype? {place : DoctypePlace} {text after : List Char}
    (cut : cutDoctype? place text = some after) : after.length ≤ text.length := by
  fun_induction cutDoctype? place text
  all_goals first
    | (rename_i ih; exact Nat.le_succ_of_le (ih cut))
    | (simp only [Option.some.injEq] at cut; exact cut ▸ Nat.le_succ _)
    | simp at cut

private theorem length_le_of_cutPattern? {pattern text before after : List Char}
    (cut : cutPattern? pattern text = some (before, after)) :
    after.length + pattern.length ≤ text.length := by
  rw [cutPattern?_eq_some cut]
  simp only [List.length_append]
  omega

private theorem length_le_of_stripKeyword? {keyword text after : List Char}
    (strip : stripKeyword? keyword text = some after) : after.length ≤ text.length := by
  unfold stripKeyword? at strip
  split at strip
  · simp only [Option.some.injEq] at strip
    simp [← strip]
  · simp at strip

namespace Lexeme

/-- How a unit is cut off a text: what the text has to start with, and which cut leaves the rest. -/
inductive Cut : List Char → Lexeme → List Char → Prop where
  | startTag {text content after : List Char} (cut : cutTag none text = .ok (content, after)) :
      Cut ('<' :: text) (.startTag content) after
  | emptyTag {text content after : List Char} (cut : cutTag none text = .ok (content, after))
      (slash : content.getLast? = some '/') : Cut ('<' :: text) (.emptyTag content.dropLast) after
  | endTag {text content after : List Char} (cut : cutTag none text = .ok (content, after)) :
      Cut ('<' :: '/' :: text) (.endTag (trimMarkupEnd content)) after
  | characterData {text content after : List Char}
      (cut : cutPattern? [']', ']', '>'] text = some (content, after)) :
      Cut ('<' :: (['!', '[', 'C', 'D', 'A', 'T', 'A', '['] ++ text)) (.characterData content) after
  | comment {text content after : List Char}
      (cut : cutPattern? ['-', '-', '>'] text = some (content, after)) :
      Cut ('<' :: (['!', '-', '-'] ++ text)) (.comment content) after
  | doctype {text rest after : List Char}
      (keyword : stripKeyword? ['!', 'D', 'O', 'C', 'T', 'Y', 'P', 'E'] text = some rest)
      (cut : cutDoctype? .head rest = some after) : Cut ('<' :: text) .ignored after
  | instruction {text content after : List Char}
      (cut : cutPattern? ['?', '>'] text = some (content, after)) :
      Cut ('<' :: '?' :: text) .ignored after
  | reference {text name after : List Char}
      (cut : cutReference? ['&', '<'] text = some (name, after)) :
      Cut ('&' :: text) (.reference name) after
  | text {char : Char} {rest : List Char} (plain : isTextChar char = true) :
      Cut (char :: rest) (.text (char :: rest.takeWhile isTextChar)) (rest.dropWhile isTextChar)

section Markup

variable {text after : List Char} {lexeme : Lexeme}

private theorem cut_of_nextTag (step : nextTag text = .ok (lexeme, after)) :
    Cut ('<' :: text) lexeme after := by
  rw [nextTag] at step
  cases cut : cutTag none text with
  | error fault =>
      rw [cut] at step
      cases step
  | ok parts =>
      rw [cut, Except.map] at step
      split at step
      case isTrue slash =>
        cases step
        exact .emptyTag cut slash
      case isFalse =>
        cases step
        exact .startTag cut

private theorem cut_of_nextEndTag (step : nextEndTag text = .ok (lexeme, after)) :
    Cut ('<' :: '/' :: text) lexeme after := by
  rw [nextEndTag] at step
  cases cut : cutTag none text with
  | error fault =>
      rw [cut] at step
      cases step
  | ok parts =>
      rw [cut] at step
      cases step
      exact .endTag cut

/-- What stands between an opening and the first closing behind it. -/
private theorem exists_inner_of_cut {opening closing content : List Char}
    (found : (stripFront? opening text).bind (cutPattern? closing) = some (content, after)) :
    ∃ inner, text = opening ++ inner ∧ cutPattern? closing inner = some (content, after) := by
  obtain ⟨inner, opened, cut⟩ := Option.bind_eq_some_iff.1 found
  exact ⟨inner, eq_append_of_stripFront? opened, cut⟩

private theorem cut_of_nextCharacterData (step : nextCharacterData text = .ok (lexeme, after)) :
    Cut ('<' :: text) lexeme after := by
  rw [nextCharacterData] at step
  split at step
  case h_1 found =>
    cases step
    obtain ⟨inner, rfl, cut⟩ := exists_inner_of_cut found
    exact .characterData cut
  case h_2 => cases step

private theorem cut_of_nextComment (step : nextComment text = .ok (lexeme, after)) :
    Cut ('<' :: text) lexeme after := by
  rw [nextComment] at step
  split at step
  case h_1 found =>
    cases step
    obtain ⟨inner, rfl, cut⟩ := exists_inner_of_cut found
    exact .comment cut
  case h_2 => cases step

private theorem cut_of_nextDoctype (step : nextDoctype text = .ok (lexeme, after)) :
    Cut ('<' :: text) lexeme after := by
  rw [nextDoctype] at step
  split at step
  case h_1 => cases step
  case h_2 keyword =>
    split at step
    case h_1 => cases step
    case h_2 cut =>
      split at step
      case isTrue => cases step
      case isFalse =>
        cases step
        exact .doctype keyword cut

private theorem cut_of_nextInstruction (step : nextInstruction text = .ok (lexeme, after)) :
    Cut ('<' :: '?' :: text) lexeme after := by
  rw [nextInstruction] at step
  split at step
  case isTrue => cases step
  case isFalse =>
    split at step
    case h_1 cut =>
      cases step
      exact .instruction cut
    case h_2 => cases step

private theorem cut_of_nextMarkup (step : nextMarkup text = .ok (lexeme, after)) :
    Cut ('<' :: text) lexeme after := by
  rw [nextMarkup.eq_def] at step
  split at step
  · cases step
  · split at step
    · exact cut_of_nextCharacterData step
    · exact cut_of_nextComment step
    · exact cut_of_nextDoctype step
    · exact cut_of_nextDoctype step
    · cases step
  · exact cut_of_nextEndTag step
  · exact cut_of_nextInstruction step
  · exact cut_of_nextTag step

end Markup

variable {after : List Char} {lexeme : Lexeme}

theorem cut_of_next {char : Char} {rest : List Char} (step : next char rest = .ok (lexeme, after)) :
    Cut (char :: rest) lexeme after := by
  rw [next] at step
  split at step
  case isTrue isOpening =>
    rw [isOpening]
    exact cut_of_nextMarkup step
  case isFalse noOpening =>
    split at step
    case isTrue isReference =>
      rw [isReference]
      split at step
      case h_1 cut =>
        cases step
        exact .reference cut
      case h_2 => cases step
    case isFalse noReference =>
      cases step
      exact .text (by simp [isTextChar, noOpening, noReference])

theorem Cut.length_lt {text : List Char} (cut : Cut text lexeme after) :
    after.length < text.length := by
  cases cut with
  | startTag cut | emptyTag cut => exact Nat.lt_succ_of_lt (length_lt_of_cutTag cut)
  | endTag cut => exact Nat.lt_succ_of_lt (Nat.lt_succ_of_lt (length_lt_of_cutTag cut))
  | characterData cut | comment cut =>
      have shorter := length_le_of_cutPattern? cut
      simp only [List.length_cons, List.length_append]
      omega
  | doctype keyword cut =>
      exact Nat.lt_succ_of_le
        (Nat.le_trans (length_le_of_cutDoctype? cut) (length_le_of_stripKeyword? keyword))
  | instruction cut =>
      have shorter := length_le_of_cutPattern? cut
      simp only [List.length_cons]
      omega
  | reference cut => exact Nat.lt_succ_of_lt (length_lt_of_cutReference? cut)
  | text => exact Nat.lt_succ_of_le (List.dropWhile_sublist _).length_le

/-- Taking a unit off leaves less than there was. -/
theorem length_lt_of_next {char : Char} {rest : List Char}
    (step : next char rest = .ok (lexeme, after)) : after.length < (char :: rest).length :=
  (cut_of_next step).length_lt

end Lexeme

end TemplateFill.Markup
