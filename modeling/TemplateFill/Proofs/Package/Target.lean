import TemplateFill.Proofs.Package.PartName

/-!
# Where targets lead

A target leads from the folder of its source to a part of the package, and never out of it: what it
means is a path from the top, without steps that go nowhere or up.  Such a path means itself, and a
path that has been made relative to a source comes back.
-/

namespace TemplateFill.PartName

open Text

/-- A path from the top: each of its pieces enters a folder or names a part. -/
def IsPath (name : String) : Prop :=
  ∀ piece ∈ pieces '/' name.toList, piece ≠ [] ∧ piece ≠ ['.'] ∧ piece ≠ ['.', '.']

instance : DecidablePred IsPath := fun name =>
  inferInstanceAs (Decidable (∀ piece ∈ pieces '/' name.toList,
    piece ≠ [] ∧ piece ≠ ['.'] ∧ piece ≠ ['.', '.']))

/-- What the target of a relationship can mean: a path, or nothing, if all folders have been left.
It means itself, taken from the top. -/
structure IsResolved (name : String) : Prop where
  path : name = "" ∨ IsPath name
  start : name.toList.head? ≠ some '/'
  stop : name.toList.getLast? ≠ some '/'
  fromTop : resolve "" name = name
  fromAnywhere : ∀ source, resolve source ("/" ++ name) = name

variable {name source : String}

/-! ## Paths -/

theorem isPath_iff : IsPath name ↔ AreSteps (pieces '/' name.toList) := by
  constructor
  · intro isPath piece member
    rcases isPath piece member with ⟨filled, notHere, notUp⟩
    exact ⟨filled, notHere, notUp, not_mem_of_mem_pieces member⟩
  · intro areSteps piece member
    have isStep := areSteps piece member
    exact ⟨isStep.notEmpty, isStep.notHere, isStep.notUp⟩

theorem isNormal_iff : IsNormal name ↔ name = "" ∨ IsPath name := by
  constructor
  · rintro ⟨steps, areSteps, whole⟩
    by_cases none : steps = []
    · left
      rw [none] at whole
      exact String.toList_eq_nil_iff.1 whole
    · right
      rw [isPath_iff, whole, pieces_joined none (noSlash_of_areSteps areSteps)]
      exact areSteps
  · rintro (rfl | isPath)
    · exact ⟨[], List.forall_mem_nil _, rfl⟩
    · exact ⟨_, isPath_iff.1 isPath, (joined_pieces '/' name.toList).symm⟩

/-- A path neither starts nor ends with a slash. -/
theorem IsPath.noSlash_ends (isPath : IsPath name) :
    name.toList.head? ≠ some '/' ∧ name.toList.getLast? ≠ some '/' := by
  have filled : [] ∉ pieces '/' name.toList := fun member => (isPath [] member).1 rfl
  constructor
  · intro starts
    rcases List.head?_eq_some_iff.1 starts with ⟨rest, whole⟩
    rw [whole] at filled
    exact filled (by simp [pieces])
  · intro ends
    rcases List.getLast?_eq_some_iff.1 ends with ⟨front, whole⟩
    rw [whole, pieces_append] at filled
    exact filled (List.mem_append_right _ List.mem_cons_self)

/-- From the top a path leads through its own steps. -/
theorem foldl_follow_joined {steps : List (List Char)} (areSteps : AreSteps steps) :
    (pieces '/' (joined '/' steps)).foldl follow [] = steps := by
  by_cases none : steps = []
  · rw [none]
    rfl
  · rw [pieces_joined none (noSlash_of_areSteps areSteps), foldl_follow areSteps, List.nil_append]

/-- The folders of a source are the steps that lead to it. -/
theorem areSteps_foldersOf (normal : IsNormal source) : AreSteps (foldersOf source) := by
  rcases split_of_isNormal normal with ⟨_, none⟩ | ⟨front, above, _, folders, _⟩
  · rw [none]
    exact List.forall_mem_nil _
  · rw [folders]
    exact above

/-! ## Targets -/

/-- With a slash in front a target is taken from the top, whatever its source. -/
theorem resolve_slash (source path : String) :
    resolve source ("/" ++ path) =
      String.ofList (joined '/' ((pieces '/' path.toList).foldl follow [])) := by
  have chars : ("/" ++ path).toList = '/' :: path.toList := by simp
  rw [resolve, chars]
  rfl

theorem resolve_of_noSlash {path : String} (noSlash : path.toList.head? ≠ some '/') :
    resolve source path =
      String.ofList (joined '/' ((pieces '/' path.toList).foldl follow (foldersOf source))) := by
  rw [resolve.eq_def]
  split
  · rename_i rest chars
    rw [chars] at noSlash
    exact absurd rfl noSlash
  · rfl

theorem IsNormal.isResolved (normal : IsNormal name) : IsResolved name := by
  have ends : name.toList.head? ≠ some '/' ∧ name.toList.getLast? ≠ some '/' := by
    rcases isNormal_iff.1 normal with rfl | isPath
    · exact ⟨nofun, nofun⟩
    · exact isPath.noSlash_ends
  rcases normal with ⟨steps, areSteps, whole⟩
  have itself : String.ofList (joined '/' ((pieces '/' name.toList).foldl follow [])) = name := by
    rw [whole, foldl_follow_joined areSteps, ← whole, String.ofList_toList]
  constructor
  case path => exact isNormal_iff.1 ⟨steps, areSteps, whole⟩
  case start => exact ends.1
  case stop => exact ends.2
  case fromTop =>
    have top : foldersOf "" = [] := rfl
    rw [resolve_of_noSlash ends.1, top, itself]
  case fromAnywhere =>
    intro source
    rw [resolve_slash, itself]

/-- A path that is made relative to a source comes back, and whatever the target of a source is, it
leads to a path of the package. -/
theorem resolve_within_package (isSource : source = "" ∨ IsPath source) :
    (∀ part, IsPath part → resolve source (relative source part) = part) ∧
      ∀ target, IsResolved (resolve source target) := by
  have normal := isNormal_iff.2 isSource
  constructor
  · intro part isPath
    exact resolve_relative normal (isPath_iff.1 isPath)
  · intro target
    exact (isNormal_resolve (areSteps_foldersOf normal) target).isResolved

/-- A folder is not taken for another one whose name goes on, and no target leaves the package. -/
theorem resolve_within_package_wordy :
    IsPath "word/document.xml" ∧ IsPath "wordy/x.xml" ∧
      resolve "word/document.xml" (relative "word/document.xml" "wordy/x.xml") = "wordy/x.xml" ∧
      IsResolved (resolve "word/document.xml" "../../a/.//b/") := by
  have isSource : IsPath "word/document.xml" := by decide
  have isPart : IsPath "wordy/x.xml" := by decide
  rcases resolve_within_package (.inr isSource) with ⟨back, within⟩
  exact ⟨isSource, isPart, back _ isPart, within _⟩

end TemplateFill.PartName
