import TemplateFill.Bookmark.Marker
import TemplateFill.Package.Structure

/-!
# Detecting tracked revisions

A detector tells whether a package has tracked revisions.  The usual one looks for revision
markup in the main part and in the parts that hold more of its text.
-/

namespace TemplateFill

/-- Whether one of some parts has revision markup; they are read up to the first that
has. -/
def Package.anyRevised (package : Package) : List String → Except Error Bool
  | [] => .ok false
  | part :: rest => do
      if (← package.document part).hasRevisions then return true else package.anyRevised rest

/-- The parts that `source` leads to by relationships of some types, in the order of the
types. -/
def Package.partsOfTypes (package : Package) (source : String) :
    List String → Except Error (List String)
  | [] => .ok []
  | type :: rest => do
      let parts ← package.relatedParts source type
      return parts ++ (← package.partsOfTypes source rest)

/-- Whether the text of a package has revision markup. -/
def Package.hasRevisionMarkup (package : Package) : Except Error Bool := do
  let main ← package.mainPart
  package.anyRevised (main :: (← package.partsOfTypes main Relationship.storyTypes))

/-- Tells whether a package has tracked revisions.  It is also told how often it has been
asked before, and need not give the same answer again. -/
structure Detector where
  answer : (asked : Nat) → Package → Except Error Bool

namespace Detector

/-- Looks for revision markup. -/
def markup : Detector := ⟨fun _ package => package.hasRevisionMarkup⟩

/-- Gives prepared answers in order, the last of them for ever. -/
def prepared (answers : List Bool) : Detector :=
  ⟨fun asked _ => .ok ((answers[asked]?).getD (answers.getLastD false))⟩

end Detector

/-- The names of the bookmarks of a template.  A template with tracked revisions is refused,
and so is one without bookmarks. -/
def Package.templateBookmarks (package : Package) (detector : Detector) (asked : Nat) :
    Except Error (List String) := do
  if ← detector.answer asked package then
    throw .trackedRevisions
  let root ← package.document (← package.mainPart)
  match Bookmark.names root with
  | [] => throw .noBookmarks
  | names => return names

end TemplateFill
