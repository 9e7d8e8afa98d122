import Mathlib.Data.List.TakeWhile
import TemplateFill.Proofs.Package.Growth

/-!
# Packages as ordered maps

The parts of a package are an ordered map from names to contents which does not look at the case of
letters.  Writing changes what is found by the names of the written part and by no others, and adds
a part only under a name that has found nothing.
-/

namespace TemplateFill

open Text

/-! ## Slashes in front -/

namespace PartName

/-- What is left of a name without the slashes in front. -/
structure IsBare (name bare : String) : Prop where
  slashes : ∃ count, name.toList = List.replicate count '/' ++ bare.toList
  noSlash : bare.toList.head? ≠ some '/'

private theorem exists_slashes (name : String) :
    ∃ count, name.toList = List.replicate count '/' ++ (bare name).toList := by
  refine ⟨(name.toList.takeWhile (· == '/')).length, ?_⟩
  have slashes : name.toList.takeWhile (· == '/') =
      List.replicate (name.toList.takeWhile (· == '/')).length '/' := by
    rw [List.eq_replicate_iff]
    exact ⟨rfl, fun char member => by simpa using List.mem_takeWhile_imp member⟩
  rw [← slashes, bare, String.toList_ofList, List.takeWhile_append_dropWhile]

private theorem head?_bare_ne (name : String) : (bare name).toList.head? ≠ some '/' := by
  rw [bare, String.toList_ofList]
  intro first
  have stops := List.head?_dropWhile_not (· == '/') name.toList
  rw [first] at stops
  exact absurd stops (by decide)

theorem isBare_bare (name : String) : IsBare name (bare name) :=
  ⟨exists_slashes name, head?_bare_ne name⟩

theorem bare_of_head?_ne {name : String} (noSlash : name.toList.head? ≠ some '/') :
    bare name = name := by
  have stays : name.toList.dropWhile (· == '/') = name.toList := by
    cases chars : name.toList with
    | nil => rfl
    | cons first rest =>
        rw [chars, List.head?_cons] at noSlash
        exact List.dropWhile_cons_of_neg (by simpa using noSlash)
  rw [bare, stays, String.ofList_toList]

end PartName

namespace Package

variable {package : Package} {name : String} {index : Nat}

/-- The place of the part that is written under a name: of the one that the name means, or behind
all parts. -/
def placeOf (package : Package) (name : String) : Nat :=
  (package.find? name).getD package.parts.length

/-- Names that differ in more than the case of letters. -/
def DistinctNames (package : Package) : Prop :=
  package.names.Pairwise fun left right => sameButCase left right = false

/-- What a package is after a content has been stored under a name. -/
structure Stored (name : String) (content : Bytes) (before after : Package) : Prop where
  find?_self : after.find? name = some (before.placeOf name)
  get?_self : after.get? name = some content
  get?_eq : ∀ other, after.get? other =
    if after.find? other = some (before.placeOf name) then some content else before.get? other
  others : ∀ place, place ≠ before.placeOf name → after.parts[place]? = before.parts[place]?
  names : after.names = before.names ++ if before.has name then [] else [PartName.bare name]

theorem find?_set_self (package : Package) (name : String) (content : Bytes) :
    (package.set name content).find? name = some (package.placeOf name) := by
  cases found : package.find? name with
  | some index => rw [find?_set found, placeOf, found, Option.getD_some]
  | none => rw [find?_new found, placeOf, found, Option.getD_none]

theorem stored_set (package : Package) (name : String) (content : Bytes) :
    Stored name content package (package.set name content) where
  find?_self := find?_set_self package name content
  get?_self := get?_store package name content
  get?_eq other := by rw [get?_set_eq, find?_set_self]
  others place apart := by
    cases found : package.find? name with
    | some index =>
        rw [placeOf, found, Option.getD_some] at apart
        apply (keepsOthers_set found content).others
        rw [found, ne_eq, Option.some.injEq]
        exact Ne.symm apart
    | none =>
        rw [placeOf, found, Option.getD_none] at apart
        rw [set_new found, List.getElem?_append]
        split
        · rfl
        · rw [List.getElem?_eq_none (by simp; omega), List.getElem?_eq_none (by omega)]
  names := (grows_store package name content).names

/-! ## Distinct names -/

/-- A new name is none of those that are there, whatever their case. -/
theorem DistinctNames.set (distinct : package.DistinctNames) (name : String) (content : Bytes) :
    (package.set name content).DistinctNames := by
  have grows := grows_store package name content
  rw [DistinctNames, grows.names]
  refine List.pairwise_append.2
    ⟨distinct, ?_, fun old isOld new isNew => grows.fresh new isNew old isOld⟩
  split <;> simp

/-- Distinct names are at one place if they are the same but for case. -/
theorem DistinctNames.place_eq (distinct : package.DistinctNames) {place place' : Nat}
    {known known' : String} (isKnown : package.names[place]? = some known)
    (isKnown' : package.names[place']? = some known') (same : sameButCase known known' = true) :
    place = place' := by
  rcases List.getElem?_eq_some_iff.1 isKnown with ⟨inRange, rfl⟩
  rcases List.getElem?_eq_some_iff.1 isKnown' with ⟨inRange', rfl⟩
  have apart := List.pairwise_iff_getElem.1 distinct
  rcases Nat.lt_trichotomy place place' with less | rfl | more
  · rw [apart place place' inRange inRange' less] at same
    cases same
  · rfl
  · rw [sameButCase_comm, apart place' place inRange' inRange more] at same
    cases same

/-- Where names are distinct a name means every part that is called so but for case: no part stands
before another one and hides it. -/
theorem DistinctNames.find?_iff (distinct : package.DistinctNames) :
    package.find? name = some index ↔
      ∃ known, package.names[index]? = some known ∧
        sameButCase known (PartName.bare name) = true := by
  constructor
  · exact exists_name_of_find?
  · rintro ⟨known, isKnown, called⟩
    have there : package.has name = true :=
      has_iff.2 ⟨known, List.mem_of_getElem? isKnown, called⟩
    rcases Option.isSome_iff_exists.1 there with ⟨place, found⟩
    rcases exists_name_of_find? found with ⟨other, isOther, called'⟩
    rw [sameButCase_comm] at called'
    rw [found, distinct.place_eq isKnown isOther (sameButCase_trans called called')]

/-- A part is found by its own name, unless slashes stand in front of it. -/
theorem DistinctNames.find?_own (distinct : package.DistinctNames) {known : String}
    (isKnown : package.names[index]? = some known) (noSlash : known.toList.head? ≠ some '/') :
    package.find? known = some index := by
  rw [distinct.find?_iff, PartName.bare_of_head?_ne noSlash]
  exact ⟨known, isKnown, sameButCase_self known⟩

/-! ## Writing several times -/

/-- The package after contents have been stored one after the other. -/
def setAll (package : Package) (writes : List (String × Bytes)) : Package :=
  writes.foldl (fun package write => package.set write.1 write.2) package

theorem DistinctNames.setAll (distinct : package.DistinctNames)
    (writes : List (String × Bytes)) : (package.setAll writes).DistinctNames := by
  induction writes generalizing package with
  | nil => exact distinct
  | cons write rest ih => exact ih (distinct.set write.1 write.2)

/-- The parts of before stay, and new parts have names under which something has been stored. -/
theorem exists_grows_setAll (package : Package) (writes : List (String × Bytes)) :
    ∃ added, Grows (writes.map Prod.fst) package (package.setAll writes) added ∧
      ∀ new ∈ added, ∃ write ∈ writes, new = PartName.bare write.1 := by
  induction writes generalizing package with
  | nil =>
      refine ⟨[], ⟨(List.append_nil _).symm, nofun, fun _ _ _ => rfl⟩, nofun⟩
  | cons write rest ih =>
      rcases ih (package.set write.1 write.2) with ⟨added, grows, isNew⟩
      refine ⟨_, (grows_store package write.1 write.2).trans grows, ?_⟩
      rw [List.forall_mem_append]
      constructor
      · split
        · exact nofun
        · exact List.forall_mem_singleton.2 ⟨write, List.mem_cons_self, rfl⟩
      · intro new member
        rcases isNew new member with ⟨later, among, same⟩
        exact ⟨later, List.mem_cons_of_mem _ among, same⟩

/-- A name under which something has been stored means the same part from then on, and a name means
this part afterwards if it does so right then. -/
private theorem find?_setAll_eq_iff (package : Package) (name other : String) (content : Bytes)
    (writes : List (String × Bytes)) :
    (((package.set name content).setAll writes).find? name =
        ((package.set name content).setAll writes).find? other) ↔
      (package.set name content).find? other = (package.set name content).find? name := by
  rcases exists_grows_setAll (package.set name content) writes with ⟨added, grows, _⟩
  have found := find?_set_self package name content
  rw [grows.find?_eq found, found, eq_comm, grows.find?_iff other (lt_of_find? found)]

/-- The content of a part is what was stored last under one of its names, or what it was before. -/
theorem get?_setAll (package : Package) (writes : List (String × Bytes)) (name : String) :
    (package.setAll writes).get? name =
      ((writes.reverse.find? fun write =>
        (package.setAll writes).find? write.1 = (package.setAll writes).find? name).map
          Prod.snd).or (package.get? name) := by
  induction writes generalizing package with
  | nil => rfl
  | cons write rest ih =>
      have after_eq : package.setAll (write :: rest) =
          (package.set write.1 write.2).setAll rest := rfl
      -- Of the first write only the part that it goes to tells whether the name finds it.
      have first := find?_setAll_eq_iff package write.1 name write.2 rest
      rw [after_eq, ih, List.reverse_cons, List.find?_append, Option.map_or, Option.or_assoc,
        get?_set_eq, List.find?_singleton]
      by_cases same : (package.set write.1 write.2).find? name =
          (package.set write.1 write.2).find? write.1
      · rw [if_pos same, if_pos (decide_eq_true (first.2 same))]
        rfl
      · rw [if_neg same, if_neg (by simpa using fun one => same (first.1 one))]
        rfl

/-- What a package is after contents have been stored one after the other. -/
structure StoredAll (writes : List (String × Bytes)) (before after : Package) : Prop where
  names : ∃ added, after.names = before.names ++ added ∧
    ∀ new ∈ added, ∃ write ∈ writes, new = PartName.bare write.1
  find?_iff : ∀ name, ∀ place < before.parts.length,
    (after.find? name = some place ↔ before.find? name = some place)
  others : ∀ place < before.parts.length,
    (∀ name ∈ writes.map Prod.fst, before.find? name ≠ some place) →
      after.parts[place]? = before.parts[place]?
  get?_eq : ∀ name, after.get? name =
    ((writes.reverse.find? fun write => after.find? write.1 = after.find? name).map Prod.snd).or
      (before.get? name)

theorem storedAll_setAll (package : Package) (writes : List (String × Bytes)) :
    StoredAll writes package (package.setAll writes) := by
  rcases exists_grows_setAll package writes with ⟨added, grows, isNew⟩
  exact ⟨⟨added, grows.names, isNew⟩, fun name _ inside => grows.find?_iff name inside,
    grows.others, get?_setAll package writes⟩

/-- No part hides another one: what a name finds is told by the name of the part, whatever other
parts there are, and a part is found by its own name, unless slashes stand in front of it. -/
structure NoneHidden (package : Package) : Prop where
  find?_iff : ∀ name index, package.find? name = some index ↔
    ∃ known, package.names[index]? = some known ∧ sameButCase known (PartName.bare name) = true
  find?_own : ∀ index known, package.names[index]? = some known →
    known.toList.head? ≠ some '/' → package.find? known = some index

/-- Writing under a name changes what is found by the names of the written part, and adds a part at
the end if there was none.  However often this is done, names that differed in more than case still
do, so that no part is hidden, lost or listed twice. -/
theorem set_isOrderedMap :
    (∀ (package : Package) (name : String) (content : Bytes),
      Stored name content package (package.set name content) ∧
        PartName.IsBare name (PartName.bare name) ∧
        (package.DistinctNames → (package.set name content).DistinctNames)) ∧
    (∀ (package : Package) (writes : List (String × Bytes)),
      StoredAll writes package (package.setAll writes) ∧
        (package.DistinctNames → (package.setAll writes).DistinctNames ∧
          (package.setAll writes).NoneHidden)) := by
  refine ⟨fun package name content => ⟨stored_set package name content, PartName.isBare_bare name,
    fun distinct => distinct.set name content⟩, fun package writes =>
    ⟨storedAll_setAll package writes, fun distinct => ?_⟩⟩
  have kept := distinct.setAll writes
  exact ⟨kept, fun _ _ => kept.find?_iff, fun _ _ => kept.find?_own⟩

/-- Two parts, one of them in a folder. -/
def lettered : Package := ⟨[⟨"word/Document.xml", [1]⟩, ⟨"a", [2]⟩]⟩

/-- A part is overwritten, a new one is added, and then found in other letters. -/
def letteredWrites : List (String × Bytes) :=
  [("/WORD/document.xml", [3]), ("//B", [4]), ("b", [5])]

theorem set_isOrderedMap_lettered :
    lettered.DistinctNames ∧ (lettered.setAll letteredWrites).NoneHidden ∧
      (lettered.setAll letteredWrites).names = ["word/Document.xml", "a", "B"] ∧
      (lettered.setAll letteredWrites).get? "/b" = some [5] := by
  have distinct : lettered.DistinctNames :=
    show lettered.names.Pairwise fun left right => sameButCase left right = false by decide
  rcases set_isOrderedMap.2 lettered letteredWrites with ⟨stored, hidden⟩
  refine ⟨distinct, (hidden distinct).2, by decide, ?_⟩
  rw [stored.get?_eq]
  decide

end Package

end TemplateFill
