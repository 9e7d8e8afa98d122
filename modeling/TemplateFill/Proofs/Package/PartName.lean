import Mathlib.Data.Fintype.Card
import Mathlib.Tactic.Push
import TemplateFill.Package.Structure
import TemplateFill.Proofs.Package.Growth
import TemplateFill.Proofs.Text.Cut

/-!
# Part names and targets

A relationship that names a part relative to its source leads to this part.  New chunk parts stand
next to their source, and one of the first numbers is free.
-/

namespace TemplateFill

open Text

namespace PartName

/-! ## Steps of a path -/

/-- A step that enters a folder or names a part. -/
structure IsStep (step : List Char) : Prop where
  notEmpty : step ≠ []
  notHere : step ≠ ['.']
  notUp : step ≠ ['.', '.']
  noSlash : '/' ∉ step

/-- Steps that lead from the top down. -/
def AreSteps (steps : List (List Char)) : Prop := ∀ step ∈ steps, IsStep step

/-- The name of a part as steps from the top, joined by slashes; the empty name has no steps. -/
def IsNormal (name : String) : Prop := ∃ steps, AreSteps steps ∧ name.toList = joined '/' steps

section Steps

variable {steps front : List (List Char)} {file : List Char}

theorem follow_step {step : List Char} (isStep : IsStep step) (folders : List (List Char)) :
    follow folders step = folders ++ [step] := by
  have stays : ¬ (step = [] ∨ step = ['.']) := by
    rintro (empty | here)
    · exact isStep.notEmpty empty
    · exact isStep.notHere here
  rw [follow, if_neg stays, if_neg isStep.notUp]

theorem foldl_follow (areSteps : AreSteps steps) (start : List (List Char)) :
    steps.foldl follow start = start ++ steps := by
  induction steps generalizing start with
  | nil => exact (List.append_nil start).symm
  | cons step rest ih =>
      rcases List.forall_mem_cons.1 areSteps with ⟨isStep, others⟩
      rw [List.foldl_cons, follow_step isStep, ih others, List.append_assoc,
        List.singleton_append]

/-- Following pieces of a path leads through folders only. -/
theorem areSteps_foldl_follow (start : AreSteps front) {path : List (List Char)}
    (free : ∀ piece ∈ path, '/' ∉ piece) : AreSteps (path.foldl follow front) := by
  induction path generalizing front with
  | nil => exact start
  | cons piece rest ih =>
      rcases List.forall_mem_cons.1 free with ⟨noSlash, others⟩
      refine ih ?_ others
      rw [follow]
      split
      · exact start
      · rename_i moves
        split
        · exact fun step member => start step (List.dropLast_subset front member)
        · rename_i down
          rw [not_or] at moves
          exact List.forall_mem_append.2
            ⟨start, List.forall_mem_singleton.2 ⟨moves.1, moves.2, down, noSlash⟩⟩

theorem noSlash_of_areSteps (areSteps : AreSteps steps) : ∀ step ∈ steps, '/' ∉ step :=
  fun step member => (areSteps step member).noSlash

theorem joined_ne_nil (areSteps : AreSteps steps) (some : steps ≠ []) : joined '/' steps ≠ [] := by
  cases steps with
  | nil => exact absurd rfl some
  | cons step rest =>
      have filled := (areSteps step List.mem_cons_self).notEmpty
      cases rest with
      | nil => exact filled
      | cons next rest =>
          rw [joined_cons_cons]
          exact List.append_ne_nil_of_left_ne_nil filled _

end Steps

/-! ## Sources -/

/-- The folders of a source and the file in them. -/
theorem split_of_isNormal {source : String} (normal : IsNormal source) :
    (split? source = none ∧ foldersOf source = []) ∨
      ∃ front, AreSteps front ∧ front ≠ [] ∧ foldersOf source = front ∧
        ∃ file, split? source = some (joined '/' front, file) := by
  rcases normal with ⟨steps, areSteps, whole⟩
  rcases List.eq_nil_or_concat steps with rfl | ⟨front, file, rfl⟩
  · left
    have none : split? source = none := by
      rw [split?, whole]
      rfl
    exact ⟨none, by rw [foldersOf, none]⟩
  · rw [List.concat_eq_append] at areSteps whole
    rcases List.forall_mem_append.1 areSteps with ⟨above, last⟩
    have noSlash := (List.forall_mem_singleton.1 last).noSlash
    by_cases top : front = []
    · left
      have none : split? source = none := by
        rw [split?, whole, top]
        exact cutLast?_eq_none noSlash
      exact ⟨none, by rw [foldersOf, none]⟩
    · right
      have split : split? source = some (joined '/' front, file) := by
        rw [split?, whole, joined_concat top, cutLast?_append _ noSlash]
      refine ⟨front, above, top, ?_, file, split⟩
      rw [foldersOf, split]
      simp only
      rw [pieces_joined top (noSlash_of_areSteps above), List.filter_eq_self]
      exact fun step member => decide_eq_true (above step member).notEmpty

/-! ## Targets -/

/-- What the target of a relationship means is a name of its own. -/
theorem isNormal_resolve {source : String} (areSteps : AreSteps (foldersOf source))
    (target : String) : IsNormal (resolve source target) := by
  have followed : ∀ {start : List (List Char)}, AreSteps start → ∀ path,
      IsNormal (String.ofList (joined '/' ((pieces '/' path).foldl follow start))) := by
    intro start areSteps path
    have free : ∀ piece ∈ pieces '/' path, '/' ∉ piece := fun _ => not_mem_of_mem_pieces
    exact ⟨_, areSteps_foldl_follow areSteps free, String.toList_ofList⟩
  rw [resolve.eq_def]
  split
  · exact followed (List.forall_mem_nil _) _
  · exact followed areSteps _

private theorem resolve_of_top {path : List Char} (source : String)
    (areSteps : AreSteps (pieces '/' path)) :
    resolve source ("/" ++ String.ofList path) = String.ofList path := by
  have chars : ("/" ++ String.ofList path).toList = '/' :: path := by simp
  rw [resolve, chars]
  simp only
  rw [foldl_follow areSteps, List.nil_append, joined_pieces]

private theorem resolve_of_below (source : String) {path : List Char}
    (areSteps : AreSteps (pieces '/' path)) :
    resolve source (String.ofList path) =
      String.ofList (joined '/' (foldersOf source ++ pieces '/' path)) := by
  have chars : (String.ofList path).toList = path := String.toList_ofList
  rw [resolve.eq_def, chars]
  split
  · rename_i rest
    have first := areSteps [] (by simp [pieces])
    exact absurd rfl first.notEmpty
  · simp only
    rw [foldl_follow areSteps]

/-- A target that has been made relative to its source leads to its part. -/
theorem resolve_relative {source part : String} (normal : IsNormal source)
    (isPart : AreSteps (pieces '/' part.toList)) :
    resolve source (relative source part) = part := by
  have whole : String.ofList part.toList = part := String.ofList_toList
  rcases split_of_isNormal normal with ⟨none, noFolders⟩ | ⟨front, above, top, folders, file, split⟩
  · have below := resolve_of_below source isPart
    rw [whole, noFolders, List.nil_append, joined_pieces, whole] at below
    rw [relative, none]
    exact below
  · rw [relative, split]
    simp only
    cases stripped : stripFront? (joined '/' front ++ ['/']) part.toList with
    | none =>
        have fromTop := resolve_of_top source isPart
        rw [whole] at fromTop
        exact fromTop
    | some rest =>
        have chars := eq_append_of_stripFront? stripped
        rw [List.append_assoc, List.singleton_append] at chars
        have cut := pieces_append '/' (joined '/' front) rest
        rw [← chars, pieces_joined top (noSlash_of_areSteps above)] at cut
        rw [cut] at isPart
        have below := resolve_of_below source (List.forall_mem_append.1 isPart).2
        rw [folders, ← cut, joined_pieces, whole] at below
        exact below

/-! ## Chunk parts -/

/-- Where the chunk parts of a source are. -/
def chunkFolder (source : String) : List Char :=
  match split? source with
  | some (first :: folder, _) => first :: folder ++ ['/']
  | _ => []

/-- The name of a chunk part in its folder. -/
def chunkFile (number : Nat) : List Char :=
  'a' :: 'f' :: 'c' :: 'h' :: 'u' :: 'n' :: 'k' ::
    ((toString number).toList ++ ['.', 'x', 'h', 't', 'm', 'l'])

theorem toList_chunk (source : String) (number : Nat) :
    (chunk source number).toList = chunkFolder source ++ chunkFile number := by
  have file : (s!"afchunk{number}.xhtml").toList = chunkFile number := by
    rw [String.toList_append, String.toList_append]
    rfl
  rcases folder : split? source with _ | ⟨_ | ⟨first, folder⟩, rest⟩
  · simp only [chunk, chunkFolder, folder, file, List.nil_append]
  · simp only [chunk, chunkFolder, folder, file, List.nil_append]
  · simp only [chunk, chunkFolder, folder, String.toList_append, String.toList_ofList, file]

/-- What stands behind the slashes at the start of a name. -/
theorem toList_bare_append {name : String} {folder : List Char} {first : Char} {file : List Char}
    (whole : name.toList = folder ++ first :: file) (notSlash : first ≠ '/') :
    (bare name).toList = folder.dropWhile (· == '/') ++ first :: file := by
  have stays : (first :: file).dropWhile (· == '/') = first :: file :=
    List.dropWhile_cons_of_neg (by simpa using notSlash)
  rw [bare, String.toList_ofList, whole, List.dropWhile_append, stays]
  split
  · rename_i empty
    rw [List.isEmpty_iff.1 empty, List.nil_append]
  · rfl

private theorem toLower_of_isDigit {char : Char} (digit : char.isDigit = true) :
    char.toLower = char := by
  rw [Char.isDigit, Bool.and_eq_true, decide_eq_true_iff, decide_eq_true_iff] at digit
  have notUpper : ¬ (char.val ≥ 'A'.val ∧ char.val ≤ 'Z'.val) := fun upper =>
    absurd (UInt32.le_trans upper.1 digit.2) (by decide)
  exact dif_neg notUpper

private theorem toList_toString (number : Nat) :
    (toString number).toList = Nat.toDigits 10 number := by
  rw [Nat.toString_eq_repr, Nat.repr, String.toList_ofList]

private theorem map_toLower_toString (number : Nat) :
    (toString number).toList.map Char.toLower = (toString number).toList := by
  rw [toList_toString]
  refine (List.map_congr_left ?_).trans (List.map_id _)
  intro char member
  have ten : 0 < 10 := by decide
  exact toLower_of_isDigit (Nat.isDigit_of_mem_toDigits ten (Nat.le_refl 10) member)

/-- The file of a chunk part has no letters in upper case. -/
private theorem map_toLower_chunkFile (number : Nat) :
    (chunkFile number).map Char.toLower = chunkFile number := by
  simp only [chunkFile, List.map_cons, List.map_append, map_toLower_toString]
  rfl

/-- Chunk parts with different numbers have different names. -/
theorem chunk_inj {source : String} {number other : Nat}
    (same : sameButCase (bare (chunk source number)) (bare (chunk source other)) = true) :
    number = other := by
  have lower : ∀ number, foldCase (bare (chunk source number)) =
      ((chunkFolder source).dropWhile (· == '/')).map Char.toLower ++ chunkFile number := by
    intro number
    have whole := toList_bare_append (toList_chunk source number) (by decide)
    rw [foldCase, whole, List.map_append]
    exact congrArg _ (map_toLower_chunkFile number)
  rw [sameButCase_iff, lower, lower] at same
  have files := List.append_cancel_left same
  simp only [chunkFile, List.cons.injEq, true_and, List.append_cancel_right_eq] at files
  rw [toList_toString, toList_toString] at files
  have values := congrArg (Nat.ofDigitChars 10 · 0) files
  simp only [Nat.ofDigitChars_ten_toDigits] at values
  exact values

/-- A chunk part stands where its source does. -/
theorem areSteps_chunk {source : String} (normal : IsNormal source) (number : Nat) :
    AreSteps (pieces '/' (chunk source number).toList) := by
  have digits : ∀ char ∈ (toString number).toList, char.isDigit = true := by
    intro char member
    rw [toList_toString] at member
    have ten : 0 < 10 := by decide
    exact Nat.isDigit_of_mem_toDigits ten (Nat.le_refl 10) member
  have noSlash : '/' ∉ chunkFile number := by
    intro member
    simp only [chunkFile, List.mem_cons, List.mem_append] at member
    rcases member with _ | _ | _ | _ | _ | _ | _ | inDigits | _ <;> try contradiction
    exact absurd (digits _ inDigits) (by decide)
  have isStep : IsStep (chunkFile number) :=
    ⟨List.cons_ne_nil _ _, nofun, nofun, noSlash⟩
  rw [toList_chunk]
  rcases split_of_isNormal normal with ⟨none, _⟩ | ⟨front, above, top, _, file, split⟩
  · have folder : chunkFolder source = [] := by rw [chunkFolder, none]
    rw [folder, List.nil_append, pieces_of_free noSlash]
    exact List.forall_mem_singleton.2 isStep
  · have folder : chunkFolder source = joined '/' front ++ ['/'] := by
      rw [chunkFolder, split]
      cases whole : joined '/' front with
      | nil => exact absurd whole (joined_ne_nil above top)
      | cons first rest => rfl
    rw [folder, List.append_assoc, List.singleton_append, pieces_append,
      pieces_joined top (noSlash_of_areSteps above), pieces_of_free noSlash]
    exact List.forall_mem_append.2 ⟨above, List.forall_mem_singleton.2 isStep⟩

private theorem sameButCase_eq_false_of_last {left right : String} {front front' : List Char}
    {last last' : Char} (isLeft : left.toList = front ++ [last])
    (isRight : right.toList = front' ++ [last']) (apart : last.toLower ≠ last'.toLower) :
    sameButCase left right = false := by
  rw [Bool.eq_false_iff, ne_eq, sameButCase_iff]
  intro same
  rw [foldCase, foldCase, isLeft, isRight, List.map_append, List.map_append] at same
  have lasts := congrArg List.getLast? same
  rw [List.map_singleton, List.map_singleton, List.getLast?_concat, List.getLast?_concat] at lasts
  exact apart (Option.some.inj lasts)

private theorem exists_bare_relationshipsOf (source : String) :
    ∃ front, (bare (relationshipsOf source)).toList = front ++ ['s'] := by
  have ending : ∃ front, (relationshipsOf source).toList = front ++ 's' :: [] := by
    rw [relationshipsOf.eq_def]
    split
    · rename_i folder file _
      exact ⟨folder ++ "/_rels/".toList ++ file ++ ['.', 'r', 'e', 'l'], by simp⟩
    · exact ⟨("_rels/" ++ source).toList ++ ['.', 'r', 'e', 'l'], by simp⟩
  rcases ending with ⟨front, whole⟩
  exact ⟨_, toList_bare_append whole (by decide)⟩

/-- The relationships of a source are in no chunk part. -/
theorem chunk_ne_relationshipsOf (source other : String) (number : Nat) :
    sameButCase (bare (chunk source number)) (bare (relationshipsOf other)) = false := by
  rcases exists_bare_relationshipsOf other with ⟨front, isRelationships⟩
  have isChunk : (bare (chunk source number)).toList =
      ((chunkFolder source).dropWhile (· == '/') ++ 'a' :: ['f', 'c', 'h', 'u', 'n', 'k'] ++
        (toString number).toList ++ ['.', 'x', 'h', 't', 'm']) ++ ['l'] := by
    rw [toList_bare_append (toList_chunk source number) (by decide)]
    simp
  exact sameButCase_eq_false_of_last isChunk isRelationships (by decide)

/-- The relationships of a source are not in the list of content types. -/
theorem contentTypes_ne_relationshipsOf (source : String) :
    sameButCase (bare ContentTypes.partName) (bare (relationshipsOf source)) = false := by
  rcases exists_bare_relationshipsOf source with ⟨front, isRelationships⟩
  have isTypes : (bare ContentTypes.partName).toList = "[Content_Types].xm".toList ++ ['l'] := by
    decide
  exact sameButCase_eq_false_of_last isTypes isRelationships (by decide)

end PartName

namespace Package

variable {package : Package}

/-- The first free chunk part: it is not there, and all those with smaller numbers are. -/
structure IsFreshChunk (package : Package) (source part : String) (number : Nat) : Prop where
  name : part = PartName.chunk source number
  positive : 0 < number
  absent : package.has part = false
  first : ∀ smaller, 0 < smaller → smaller < number →
    package.has (PartName.chunk source smaller) = true

/-- There are fewer parts than numbers to try. -/
private theorem exists_absent_chunk (package : Package) (source : String) :
    ∃ index < package.parts.length + 1,
      package.has (PartName.chunk source (index + 1)) = false := by
  by_contra none
  push Not at none
  have present : ∀ index : Fin (package.parts.length + 1), ∃ place : Fin package.parts.length,
      package.find? (PartName.chunk source (index + 1)) = some place.val := by
    intro index
    have there := none index index.isLt
    rw [ne_eq, Bool.not_eq_false, has, Option.isSome_iff_exists] at there
    rcases there with ⟨place, found⟩
    exact ⟨⟨place, lt_of_find? found⟩, found⟩
  choose place found using present
  -- One place has one name, and names of chunk parts with different numbers differ in more than
  -- case, so there would be more places than parts.
  have injective : Function.Injective place := by
    intro index other same
    rcases exists_name_of_find? (found index) with ⟨known, isKnown, first⟩
    rcases exists_name_of_find? (found other) with ⟨known', isKnown', second⟩
    rw [same, isKnown', Option.some.injEq] at isKnown
    rw [sameButCase_comm, ← isKnown] at first
    have numbers := PartName.chunk_inj (sameButCase_trans first second)
    exact Fin.ext (Nat.succ.inj numbers)
  have card := Fintype.card_le_of_injective place injective
  simp only [Fintype.card_fin] at card
  omega

theorem isFreshChunk_freshChunk (package : Package) (source : String) :
    ∃ number, IsFreshChunk package source (package.freshChunk source) number := by
  rcases exists_absent_chunk package source with ⟨index, inside, absent⟩
  have isSome : (((List.range (package.parts.length + 1)).map fun index =>
      PartName.chunk source (index + 1)).find? fun name => !package.has name).isSome = true := by
    rw [List.find?_isSome]
    refine ⟨_, List.mem_map_of_mem (List.mem_range.2 inside), ?_⟩
    rw [absent]
    rfl
  rcases Option.isSome_iff_exists.1 isSome with ⟨part, found⟩
  rw [freshChunk, found, Option.getD_some]
  rw [List.find?_eq_some_iff_getElem] at found
  rcases found with ⟨free, number, short, same, before⟩
  simp only [List.getElem_map, List.getElem_range, List.length_map, List.length_range]
    at same before short
  refine ⟨number + 1, same.symm, Nat.succ_pos _, by simpa using free, ?_⟩
  intro smaller positive less
  have one := before (smaller - 1) (by omega)
  have number : smaller - 1 + 1 = smaller := by omega
  simpa [number] using one

end Package

end TemplateFill
