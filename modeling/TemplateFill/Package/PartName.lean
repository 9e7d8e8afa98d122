import TemplateFill.Text.Case
import TemplateFill.Text.Cut

/-!
# Part names

Parts are named by paths with slashes.  A relationship names its target relative to the
folder of its source, or from the top if the target starts with a slash.
-/

namespace TemplateFill.PartName

open TemplateFill.Text

/-- A name without the slashes in front. -/
def bare (name : String) : String := String.ofList (name.toList.dropWhile (· == '/'))

/-- The folder of a part and its name there; a part at the top has no folder. -/
def split? (name : String) : Option (List Char × List Char) := cutLast? '/' name.toList

/-- The part that holds the relationships of `source`; those of the package itself belong
to the empty name. -/
def relationshipsOf (source : String) : String :=
  match split? source with
  | some (folder, file) => String.ofList (folder ++ "/_rels/".toList ++ file ++ ".rels".toList)
  | none => "_rels/" ++ source ++ ".rels"

/-- The folders that lead to a part. -/
def foldersOf (source : String) : List (List Char) :=
  match split? source with
  | some (folder, _) => (pieces '/' folder).filter (· ≠ [])
  | none => []

/-- Follow one step of a relative path: an empty step and a dot stay, two dots leave a
folder, all else enters one. -/
def follow (folders : List (List Char)) (step : List Char) : List (List Char) :=
  if step = [] ∨ step = ['.'] then folders
  else if step = ['.', '.'] then folders.dropLast
  else folders ++ [step]

/-- The part that the target of a relationship of `source` means. -/
def resolve (source target : String) : String :=
  let followed (start : List (List Char)) (path : List Char) :=
    String.ofList (joined '/' ((pieces '/' path).foldl follow start))
  match target.toList with
  | '/' :: path => followed [] path
  | path => followed (foldersOf source) path

/-- The target by which a relationship of `source` names `part`: relative where the part is
in the folder of the source or below, else from the top. -/
def relative (source part : String) : String :=
  match split? source with
  | none => part
  | some (folder, _) =>
      match stripFront? (folder ++ ['/']) part.toList with
      | some rest => String.ofList rest
      | none => "/" ++ part

/-- The name of the chunk part with a number, next to `source`. -/
def chunk (source : String) (number : Nat) : String :=
  let file := s!"afchunk{number}.xhtml"
  match split? source with
  | some (first :: folder, _) => String.ofList (first :: folder ++ ['/']) ++ file
  | _ => file

end TemplateFill.PartName
