import TemplateFill.Error
import TemplateFill.Markup.Encoding
import TemplateFill.Markup.Writer
import TemplateFill.Package.PartName

/-!
# Packages

A package is a list of named parts.  A part is found by its exact name, or else by one that
differs in case only; slashes in front of a name do not count.
-/

namespace TemplateFill

open TemplateFill.Text

/-- A part of a package. -/
structure Part where
  name : String
  content : Bytes
  deriving DecidableEq, Repr

/-- Parts in the order of their archive. -/
structure Package where
  parts : List Part
  deriving DecidableEq, Repr

namespace Package

/-- The package without parts. -/
def empty : Package := ⟨[]⟩

/-- The names of all parts. -/
def names (package : Package) : List String := package.parts.map (·.name)

/-- The index of the part that a name means. -/
def find? (package : Package) (name : String) : Option Nat :=
  let bare := PartName.bare name
  (package.parts.findIdx? (·.name == bare)).or
    (package.parts.findIdx? fun part => sameButCase part.name bare)

/-- Whether a name means a part. -/
def has (package : Package) (name : String) : Bool := (package.find? name).isSome

/-- The content of a part. -/
def get? (package : Package) (name : String) : Option Bytes :=
  (package.find? name).bind fun index => (package.parts[index]?).map (·.content)

/-- The package with other content in a part, which is added at the end if it is new. -/
def set (package : Package) (name : String) (content : Bytes) : Package :=
  match package.find? name with
  | some index =>
      ⟨package.parts.modify index fun part => { part with content := content }⟩
  | none => ⟨package.parts ++ [⟨PartName.bare name, content⟩]⟩

/-- The document in a part. -/
def document (package : Package) (name : String) : Except Error Node :=
  match package.get? name with
  | none => .error (.missingPart name)
  | some content => (Markup.readBytes content).mapError .markup

/-- The package with a document in a part. -/
def setDocument (package : Package) (name : String) (root : Node) : Package :=
  package.set name root.toBytes

@[simp] theorem find?_empty (name : String) : empty.find? name = none := rfl

/-- The part that a name means is there. -/
theorem lt_of_find? {package : Package} {name : String} {index : Nat}
    (found : package.find? name = some index) : index < package.parts.length := by
  simp only [find?, Option.or_eq_some_iff] at found
  rcases found with exact | ⟨-, folded⟩
  · exact (List.findIdx?_eq_some_iff_getElem.1 exact).1
  · exact (List.findIdx?_eq_some_iff_getElem.1 folded).1

theorem has_eq_true_iff {package : Package} {name : String} :
    package.has name = true ↔ (package.get? name).isSome = true := by
  cases found : package.find? name with
  | none => simp [has, get?, found]
  | some index => simp [has, get?, found, lt_of_find? found]

end Package

end TemplateFill
