import Mathlib.Data.List.Nodup
import TemplateFill.Package.Parts

/-!
# Storing parts

Storing in a part that is there changes its content and nothing else.  A part that is new comes
behind the others, and since its name means none of them, every name that meant a part before
means the same part afterwards.
-/

namespace TemplateFill

namespace Text

theorem sameButCase_comm (left right : String) :
    sameButCase left right = sameButCase right left := by
  rw [Bool.eq_iff_iff, sameButCase_iff, sameButCase_iff, eq_comm]

theorem sameButCase_trans {left middle right : String} (first : sameButCase left middle = true)
    (second : sameButCase middle right = true) : sameButCase left right = true :=
  sameButCase_iff.2 ((sameButCase_iff.1 first).trans (sameButCase_iff.1 second))

end Text

namespace Package

open Text

/-- What is there after a change has the parts of before, and only the content of the part that a
name means may differ. -/
structure KeepsOthers (name : String) (before after : Package) : Prop where
  names : after.names = before.names
  others : ∀ index, before.find? name ≠ some index → after.parts[index]? = before.parts[index]?

/-- After a change there are the parts of before, of which only those that some names mean may have
another content, and behind them parts with new names. -/
structure Grows (touched : List String) (before after : Package) (added : List String) : Prop where
  names : after.names = before.names ++ added
  fresh : ∀ new ∈ added, ∀ old ∈ before.names, sameButCase old new = false
  others : ∀ index < before.parts.length, (∀ name ∈ touched, before.find? name ≠ some index) →
    after.parts[index]? = before.parts[index]?

variable {package before middle after : Package} {name : String} {index : Nat}

/-! ## What names mean -/

/-- Where no name is the same but for case, none is the same. -/
private theorem findIdx?_beq_eq_none {names : List String} {bare : String}
    (apart : ∀ known ∈ names, sameButCase known bare = false) :
    names.findIdx? (· == bare) = none := by
  rw [List.findIdx?_eq_none_iff]
  intro known member
  rw [beq_eq_false_iff_ne]
  rintro rfl
  have refused := apart _ member
  rw [sameButCase_self] at refused
  cases refused

theorem find?_eq (package : Package) (name : String) :
    package.find? name = (package.names.findIdx? (· == PartName.bare name)).or
      (package.names.findIdx? (sameButCase · (PartName.bare name))) := by
  rw [find?, names, List.findIdx?_map, List.findIdx?_map]
  rfl

/-- Parts are found by their names. -/
theorem find?_congr {other : Package} (same : package.names = other.names) (name : String) :
    package.find? name = other.find? name := by
  rw [find?_eq, find?_eq, same]

theorem find?_eq_none_iff :
    package.find? name = none ↔
      ∀ known ∈ package.names, sameButCase known (PartName.bare name) = false := by
  rw [find?_eq, Option.or_eq_none_iff, List.findIdx?_eq_none_iff, List.findIdx?_eq_none_iff]
  constructor
  · exact fun both => both.2
  · exact fun none => ⟨List.findIdx?_eq_none_iff.1 (findIdx?_beq_eq_none none), none⟩

theorem has_iff :
    package.has name = true ↔
      ∃ known ∈ package.names, sameButCase known (PartName.bare name) = true := by
  rw [has, Option.isSome_iff_ne_none, ne_eq, find?_eq_none_iff]
  simp

/-- The part that a name means is called so, but for case. -/
theorem exists_name_of_find? (found : package.find? name = some index) :
    ∃ known, package.names[index]? = some known ∧
      sameButCase known (PartName.bare name) = true := by
  rw [find?_eq, Option.or_eq_some_iff] at found
  rcases found with exact | ⟨_, folded⟩
  · rcases List.findIdx?_eq_some_iff_getElem.1 exact with ⟨short, same, _⟩
    refine ⟨_, List.getElem?_eq_getElem short, ?_⟩
    rw [beq_iff_eq.1 same, sameButCase_self]
  · rcases List.findIdx?_eq_some_iff_getElem.1 folded with ⟨short, same, _⟩
    exact ⟨_, List.getElem?_eq_getElem short, same⟩

theorem length_names (package : Package) : package.names.length = package.parts.length :=
  List.length_map _

/-! ## Parts that are there -/

section Set

variable (found : package.find? name = some index)

include found

theorem set_eq (content : Bytes) :
    package.set name content =
      ⟨package.parts.modify index fun part => { part with content := content }⟩ := by
  rw [set, found]

/-- Storing in a part that is there keeps the names of all parts and their order. -/
theorem names_set (content : Bytes) : (package.set name content).names = package.names := by
  rw [names, names, set_eq found]
  apply List.ext_getElem?
  intro place
  rw [List.getElem?_map, List.getElem?_map, List.getElem?_modify]
  cases package.parts[place]? with
  | none => rfl
  | some part =>
      rw [Option.map_eq_map, Option.map_some, Option.map_some, Option.map_some]
      split <;> rfl

theorem find?_set (content : Bytes) : (package.set name content).find? name = some index := by
  rw [find?_congr (names_set found content), found]

/-- A part has the content that was stored last. -/
theorem get?_set (content : Bytes) : (package.set name content).get? name = some content := by
  rw [get?, find?_set found, Option.bind_some, set_eq found, List.getElem?_modify_eq,
    List.getElem?_eq_getElem (lt_of_find? found)]
  rfl

/-- Storing in a part keeps the others. -/
theorem keepsOthers_set (content : Bytes) :
    KeepsOthers name package (package.set name content) := by
  refine ⟨names_set found content, ?_⟩
  intro place other
  have apart : index ≠ place := fun same => other (same ▸ found)
  rw [set_eq found, List.getElem?_modify_ne _ _ apart]

theorem get?_set_other {other : String} (apart : package.find? other ≠ some index)
    (content : Bytes) :
    (package.set name content).get? other = package.get? other := by
  rw [get?, get?, find?_congr (names_set found content)]
  cases found' : package.find? other with
  | none => rfl
  | some place =>
      rw [Option.bind_some, Option.bind_some, (keepsOthers_set found content).others place]
      intro same
      rw [found] at same
      exact apart (found'.trans same.symm)

theorem set_set (content next : Bytes) :
    (package.set name content).set name next = package.set name next := by
  rw [set_eq (find?_set found content), set_eq found content, set_eq found next,
    List.modify_modify_eq]
  rfl

theorem grows_set (content : Bytes) : Grows [name] package (package.set name content) [] := by
  constructor
  · rw [names_set found, List.append_nil]
  · exact List.forall_mem_nil _
  · intro place _ other
    exact (keepsOthers_set found content).others place (other name (List.mem_singleton_self name))

end Set

/-! ## New parts -/

section New

variable (absent : package.find? name = none)

include absent

theorem set_new (content : Bytes) :
    package.set name content = ⟨package.parts ++ [⟨PartName.bare name, content⟩]⟩ := by
  rw [set, absent]

/-- A new part comes behind the others. -/
theorem grows_new (content : Bytes) :
    Grows [] package (package.set name content) [PartName.bare name] := by
  rw [set_new absent]
  constructor
  · simp [names]
  · intro new isNew old isOld
    rw [List.mem_singleton.1 isNew]
    exact find?_eq_none_iff.1 absent old isOld
  · intro place inside _
    exact List.getElem?_append_left inside

/-- A new part is found by every name that is its own but for case. -/
theorem find?_new_of_same {other : String} (content : Bytes)
    (same : sameButCase (PartName.bare name) (PartName.bare other) = true) :
    (package.set name content).find? other = some package.parts.length := by
  have apart : ∀ known ∈ package.names, sameButCase known (PartName.bare other) = false := by
    intro known member
    rw [Bool.eq_false_iff]
    intro called
    rw [sameButCase_comm] at same
    have called' := sameButCase_trans called same
    rw [find?_eq_none_iff.1 absent known member] at called'
    cases called'
  rw [find?_eq, (grows_new absent content).names, List.findIdx?_append, List.findIdx?_append,
    findIdx?_beq_eq_none apart, List.findIdx?_eq_none_iff.2 apart]
  simp only [List.findIdx?_singleton, same, length_names]
  split <;> simp

theorem find?_new (content : Bytes) :
    (package.set name content).find? name = some package.parts.length :=
  find?_new_of_same absent content (sameButCase_self (PartName.bare name))

theorem get?_new (content : Bytes) : (package.set name content).get? name = some content := by
  rw [get?, find?_new absent, Option.bind_some, set_new absent,
    List.getElem?_append_right (Nat.le_refl _), Nat.sub_self]
  rfl

end New

namespace Grows

variable {touched : List String} {added : List String}

/-- A name means a part of before exactly if it has meant it before. -/
theorem find?_iff (grows : Grows touched before after added) (name : String)
    (inside : index < before.parts.length) :
    after.find? name = some index ↔ before.find? name = some index := by
  rw [find?_eq, find?_eq, grows.names, List.findIdx?_append, List.findIdx?_append, length_names]
  have far : ∀ {test : String → Bool},
      (added.findIdx? test).map (· + before.parts.length) ≠ some index := by
    intro test same
    rcases Option.map_eq_some_iff.1 same with ⟨place, _, sum⟩
    omega
  cases exact : before.names.findIdx? (· == PartName.bare name) with
  | some place => simp
  | none =>
      cases exact' : added.findIdx? (· == PartName.bare name) with
      | none =>
          cases folded : before.names.findIdx? (sameButCase · (PartName.bare name)) with
          | some place => simp
          | none => simpa using far
      | some place =>
          -- A new part of this name would be one of those that the name meant before.
          have folded : before.names.findIdx? (sameButCase · (PartName.bare name)) = none := by
            rw [List.findIdx?_eq_some_iff_getElem] at exact'
            rcases exact' with ⟨short, same, _⟩
            rw [List.findIdx?_eq_none_iff]
            intro old isOld
            rw [← beq_iff_eq.1 same]
            exact grows.fresh _ (List.getElem_mem short) old isOld
          rw [folded]
          have apart : place + before.parts.length ≠ index := by omega
          simpa using apart

theorem find?_eq (grows : Grows touched before after added)
    (found : before.find? name = some index) : after.find? name = some index :=
  (grows.find?_iff name (lt_of_find? found)).2 found

/-- A name that does not mean a part of before does not mean it afterwards. -/
theorem find?_ne {other : String} (grows : Grows touched before after added)
    (found : before.find? name = some index) (apart : before.find? other ≠ some index) :
    after.find? other ≠ some index :=
  fun same => apart ((grows.find?_iff other (lt_of_find? found)).1 same)

theorem length_le (grows : Grows touched before after added) :
    before.parts.length ≤ after.parts.length := by
  have lengths := congrArg List.length grows.names
  rw [List.length_append, length_names, length_names] at lengths
  omega

/-- A part that was not touched has its content. -/
theorem get?_eq (grows : Grows touched before after added)
    (found : before.find? name = some index)
    (untouched : ∀ other ∈ touched, before.find? other ≠ some index) :
    after.get? name = before.get? name := by
  rw [get?, get?, grows.find?_eq found, found, Option.bind_some, Option.bind_some,
    grows.others index (lt_of_find? found) untouched]

theorem document_eq (grows : Grows touched before after added)
    (found : before.find? name = some index)
    (untouched : ∀ other ∈ touched, before.find? other ≠ some index) :
    after.document name = before.document name := by
  rw [document, document, grows.get?_eq found untouched]

theorem trans {touched' added' : List String} (grows : Grows touched before middle added)
    (more : Grows touched' middle after added') :
    Grows (touched ++ touched') before after (added ++ added') := by
  constructor
  · rw [more.names, grows.names, List.append_assoc]
  · intro new isNew old isOld
    rcases List.mem_append.1 isNew with early | late
    · exact grows.fresh new early old isOld
    · apply more.fresh new late
      rw [grows.names]
      exact List.mem_append_left _ isOld
  · intro place inside untouched
    rw [List.forall_mem_append] at untouched
    rw [more.others place (Nat.lt_of_lt_of_le inside grows.length_le), grows.others place inside
      untouched.1]
    intro name member means
    exact untouched.2 name member ((grows.find?_iff name inside).1 means)

/-- A name that meant nothing means one of the new parts, or still nothing. -/
theorem find?_eq_none (grows : Grows touched before after added)
    (absent : before.find? name = none)
    (others : ∀ new ∈ added, sameButCase new (PartName.bare name) = false) :
    after.find? name = none := by
  rw [find?_eq_none_iff] at absent ⊢
  rw [grows.names]
  exact List.forall_mem_append.2 ⟨absent, others⟩

end Grows

/-! ## Parts that are there or new -/

/-- A part is stored in its place, or behind the others if it is new. -/
theorem grows_store (package : Package) (name : String) (content : Bytes) :
    Grows [name] package (package.set name content)
      (if package.has name then [] else [PartName.bare name]) := by
  cases found : package.find? name with
  | some index =>
      have there : package.has name = true := by
        rw [has, found]
        rfl
      rw [if_pos there]
      exact grows_set found content
  | none =>
      have absent : ¬ package.has name = true := by
        rw [has, found]
        exact Bool.false_ne_true
      rw [if_neg absent]
      have grows := grows_new found content
      exact ⟨grows.names, grows.fresh, fun index inside _ =>
        grows.others index inside (List.forall_mem_nil _)⟩

theorem get?_store (package : Package) (name : String) (content : Bytes) :
    (package.set name content).get? name = some content := by
  cases found : package.find? name with
  | some index => exact get?_set found content
  | none => exact get?_new found content

/-- Names that mean one part after something was stored there meant one before, or none. -/
theorem find?_eq_of_find?_set {other : String} {content : Bytes}
    (one : (package.set name content).find? other = (package.set name content).find? name) :
    package.find? other = package.find? name := by
  cases found : package.find? name with
  | some index =>
      rw [find?_set found, find?_congr (names_set found content)] at one
      exact one
  | none =>
      rw [find?_new found] at one
      cases found' : package.find? other with
      | none => rfl
      | some place =>
          rw [(grows_new found content).find?_eq found', Option.some.injEq] at one
          exact absurd one (Nat.ne_of_lt (lt_of_find? found'))

/-- What was stored is found by all names of its part, and other parts have their contents. -/
theorem get?_set_eq (package : Package) (name other : String) (content : Bytes) :
    (package.set name content).get? other =
      if (package.set name content).find? other = (package.set name content).find? name then
        some content
      else package.get? other := by
  split
  · rename_i one
    rw [get?, one, ← get?, get?_store]
  · rename_i apart
    cases found : package.find? name with
    | some index =>
        rw [find?_set found, find?_congr (names_set found content)] at apart
        exact get?_set_other found apart content
    | none =>
        cases found' : package.find? other with
        | some place => exact (grows_new found content).get?_eq found' (List.forall_mem_nil _)
        | none =>
            have differ : sameButCase (PartName.bare name) (PartName.bare other) = false := by
              rw [Bool.eq_false_iff]
              intro same
              rw [find?_new found, find?_new_of_same found content same] at apart
              exact apart rfl
            rw [get?, get?, found', (grows_new found content).find?_eq_none found'
              (List.forall_mem_singleton.2 differ)]
            rfl

/-- A part whose content can be read holds a document. -/
theorem document_of_get? {content : Bytes} {root : Node} (holds : package.get? name = some content)
    (read : Markup.readBytes content = .ok root) : package.document name = .ok root := by
  simp only [document, holds, read]
  rfl

/-- A document that is read comes from a part that is there. -/
theorem exists_find?_of_document {root : Node} (holds : package.document name = .ok root) :
    ∃ index, package.find? name = some index := by
  cases found : package.find? name with
  | none =>
      rw [document, get?, found] at holds
      cases holds
  | some index => exact ⟨index, rfl⟩

theorem exists_read_of_document {root : Node} (holds : package.document name = .ok root) :
    ∃ content, package.get? name = some content ∧ Markup.readBytes content = .ok root := by
  rw [document] at holds
  split at holds
  · cases holds
  · rename_i content found
    refine ⟨content, found, ?_⟩
    cases read : Markup.readBytes content with
    | error fault =>
        rw [read] at holds
        cases holds
    | ok =>
        rw [read] at holds
        cases holds
        rfl

/-- Names that differ mean different parts. -/
theorem find?_ne_of_apart {other : String}
    (apart : sameButCase (PartName.bare name) (PartName.bare other) = false)
    (found : package.find? name = some index) : package.find? other ≠ some index := by
  intro found'
  rcases exists_name_of_find? found with ⟨known, isKnown, first⟩
  rcases exists_name_of_find? found' with ⟨known', isKnown', second⟩
  rw [isKnown, Option.some.injEq] at isKnown'
  rw [← isKnown'] at second
  rw [sameButCase_comm] at first
  rw [sameButCase_trans first second] at apart
  cases apart

end Package

end TemplateFill
