/-!
# Qualified names

The name of an element or an attribute.  Two names mean the same when namespace and
local name agree; the qualifier only says how a name is written.
-/

namespace TemplateFill

/-- The name of an element or attribute, resolved to its namespace. -/
structure QName where
  ns : Option String
  qualifier : Option String
  localName : String
  deriving DecidableEq, Repr, Inhabited

/-- A word of a fixed vocabulary, with the qualifier that is usual for its namespace. -/
structure Term where
  ns : String
  qualifier : String
  localName : String
  deriving DecidableEq, Repr

namespace QName

/-- A name from its parts; an empty qualifier is none. -/
def ofParts (ns qualifier : Option String) (localName : String) : QName :=
  ⟨ns, qualifier.filter (· ≠ ""), localName⟩

/-- A name without namespace and qualifier. -/
def plain (localName : String) : QName :=
  ⟨none, none, localName⟩

/-- The name of a vocabulary word with its usual qualifier. -/
def ofTerm (term : Term) : QName :=
  ofParts (some term.ns) (some term.qualifier) term.localName

/-- Whether a name means a vocabulary word, however it is written. -/
def denotes (name : QName) (term : Term) : Bool :=
  name.ns == some term.ns && name.localName == term.localName

/-- The name as markup shows it: qualifier, colon, local name. -/
def written (name : QName) : String :=
  match name.qualifier with
  | some qualifier => qualifier ++ ":" ++ name.localName
  | none => name.localName

theorem denotes_iff {name : QName} {term : Term} :
    name.denotes term = true ↔ name.ns = some term.ns ∧ name.localName = term.localName := by
  simp [denotes]

end QName

/-- An attribute: a name and a value. -/
structure Attr where
  name : QName
  value : String
  deriving DecidableEq, Repr

end TemplateFill
