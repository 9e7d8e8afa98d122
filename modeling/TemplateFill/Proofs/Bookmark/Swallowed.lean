import TemplateFill.Proofs.Bookmark.Starts

/-!
# Bookmarks that a substitution makes away with

Runs, paragraph marks and tables between the markers of a bookmark are dropped when it is filled,
and with them the markers of other bookmarks in them.  A bookmark gets lost exactly if all its start
markers are among these.
-/

namespace TemplateFill

namespace Node

/-- What a replacement drops of a range of siblings. -/
def droppedFrom (range : List Node) : List Node := range.filter (!outlivesReplacement ·)

section Starts

variable {bookmark : String}

theorem startsIn_le_startCount {node : Node} {nodes : List Node} (member : node ∈ nodes) :
    startsIn (fun _ => true) bookmark node ≤ startCount bookmark nodes := by
  rcases List.append_of_mem member with ⟨left, right, rfl⟩
  rw [← startsAmong_all, startsAmong_append, startsAmong_cons]
  omega

theorem startCount_children_le (node : Node) :
    startCount bookmark node.children ≤ startsIn (fun _ => true) bookmark node := by
  cases node with
  | element name attrs children =>
      rw [startsIn_element, if_pos rfl, startsAmong_all]
      exact Nat.le_add_left _ _
  | text | comment => exact Nat.zero_le _

/-- The formatting that is kept is a part of what is dropped. -/
theorem startCount_firstFormatting_le (bookmark : String) (range : List Node) :
    startCount bookmark (firstFormatting? range).toList ≤
      startCount bookmark (droppedFrom range) := by
  cases found : firstFormatting? range with
  | none => exact Nat.zero_le _
  | some formatting =>
      rcases Bookmark.mem_of_firstFormatting found with ⟨_, run, among, isRun, isChild⟩
      have dropped : run ∈ droppedFrom range := by
        refine List.mem_filter.2 ⟨among, ?_⟩
        rw [outlivesReplacement, isRun]
        rfl
      calc startCount bookmark [formatting]
        _ = startsIn (fun _ => true) bookmark formatting := (startsAmong_all [formatting]).symm
        _ ≤ startCount bookmark run.children := startsIn_le_startCount isChild
        _ ≤ startsIn (fun _ => true) bookmark run := startCount_children_le run
        _ ≤ startCount bookmark (droppedFrom range) := startsIn_le_startCount dropped

variable {passes : List Node → Node → Prop} {node target : Node} {path : Path}

/-- Putting another node at a position changes the number of start markers by what the nodes
differ. -/
theorem Reaches.startsIn_replaceAt (reached : Reaches passes node path target)
    (bookmark : String) (fresh : Node) :
    startsIn (fun _ => true) bookmark (node.replaceAt path fresh) +
        startsIn (fun _ => true) bookmark target =
      startsIn (fun _ => true) bookmark node + startsIn (fun _ => true) bookmark fresh := by
  induction reached with
  | here => exact Nat.add_comm _ _
  | @down name attrs left child right rest target _ _ ih =>
      have marker : startsBookmark bookmark
          (.element name attrs (left ++ child.replaceAt rest fresh :: right)) =
          startsBookmark bookmark (.element name attrs (left ++ child :: right)) :=
        startsBookmark_eq_of_label_eq rfl
      rw [replaceAt_down, startsIn_element, startsIn_element, if_pos rfl, if_pos rfl, marker,
        startsAmong_append, startsAmong_append, startsAmong_cons, startsAmong_cons]
      omega

end Starts

end Node

namespace Bookmark

open Node

variable {root filled : Node} {bookmark other text : String} {site : Site} {path : Path}

theorem mem_names_iff : other ∈ names root ↔ 0 < startCount other root.children := by
  have below : root.descendants = descendantsOfAll root.children := by cases root <;> rfl
  rw [startCount, ← below, List.countP_pos_iff, names]
  simp only [List.mem_filterMap, List.mem_filter, startsBookmark, Bool.and_eq_true, beq_iff_eq,
    and_assoc]

theorem findStart?_eq_none_iff : findStart? root other = none ↔ other ∉ names root := by
  rw [mem_names_iff, Nat.pos_iff_ne_zero, not_not, startCount, List.countP_eq_zero, findStart?,
    findPlaced?_eq_none_iff]
  simp only [NoneAmong, mem_descendantsOfAll, Bool.not_eq_true]
  constructor
  · rintro none inner ⟨node, among, below⟩
    exact none node among inner below
  · intro none node among inner below
    exact none inner ⟨node, among, below⟩

private theorem validate_ne_markerNotFound {revised : Bool} {place : Path × Node}
    (found : findStart? root bookmark = some place) :
    validate root revised bookmark ≠ .error (.markerNotFound other) := by
  rcases place with ⟨start, marker⟩
  rw [validate, found]
  simp only
  split
  · nofun
  · split
    · nofun
    · split <;> nofun

private theorem locate_ne_markerNotFound (root : Node) (bookmark : String) :
    locate root bookmark ≠ .error (.markerNotFound other) := by
  cases found : findMarkers root bookmark with
  | error error =>
      have broken : ∃ fault, error = .brokenMarkers fault := by
        rw [findMarkers] at found
        split at found
        · exact ⟨_, (Except.error.inj found).symm⟩
        · split at found
          · exact ⟨_, (Except.error.inj found).symm⟩
          · split at found
            · exact ⟨_, (Except.error.inj found).symm⟩
            · cases found
      rcases broken with ⟨fault, rfl⟩
      rw [locate, found]
      intro same
      cases Except.error.inj same
  | ok markers =>
      rw [locate_eq_of_findMarkers found]
      cases (nearestContainer? root markers.1).or (nearestContainer? root markers.2) with
      | some container =>
          intro same
          cases Except.error.inj same
      | none =>
          rw [Option.elim_none, Bookmark.pair]
          split
          · split <;> (intro same; cases same)
          · intro same
            cases same

/-- A bookmark is reported missing exactly if no start marker has its name. -/
theorem substitute_eq_markerNotFound_iff {revised : Bool} :
    substitute root revised bookmark text = .error (.markerNotFound other) ↔
      other = bookmark ∧ other ∉ names root := by
  cases found : findStart? root bookmark with
  | none =>
      have missing := findStart?_eq_none_iff.1 found
      have refused : substitute root revised bookmark text = .error (.markerNotFound bookmark) := by
        rw [substitute, validate, found]
        rfl
      rw [refused, Except.error.injEq, Error.markerNotFound.injEq]
      exact ⟨fun same => ⟨same.symm, same ▸ missing⟩, fun both => both.1.symm⟩
  | some place =>
      have there : bookmark ∈ names root := by
        rw [← not_not (a := bookmark ∈ names root), ← findStart?_eq_none_iff, found]
        exact Option.some_ne_none place
      refine iff_of_false ?_ fun both => both.2 (both.1 ▸ there)
      intro refused
      cases valid : validate root revised bookmark with
      | error error =>
          rw [substitute, valid] at refused
          have same : error = .markerNotFound other := Except.error.inj refused
          exact validate_ne_markerNotFound found (same ▸ valid)
      | ok =>
          cases located : locate root.flatten bookmark with
          | error error =>
              simp only [substitute, valid, located] at refused
              have same : error = .markerNotFound other := Except.error.inj refused
              exact locate_ne_markerNotFound _ _ (same ▸ located)
          | ok pair =>
              rw [substitute_of_located text valid located] at refused
              cases refused

/-- Other nodes between the markers of a site change the number of start markers by what they
differ from those before. -/
private theorem Site.Marks.startCount_replaceAt (marks : site.Marks root bookmark path)
    (other : String) (middle : List Node) :
    startCount other (root.replaceAt path (site.holding middle)).children +
        startCount other site.inside =
      startCount other root.children + startCount other middle := by
  apply startCount_children_of_label_eq (marks.label_replaceAt middle)
  have replaced := marks.reached.startsIn_replaceAt other (site.holding middle)
  have marker : (startsBookmark other (site.holding middle)).toNat =
      (startsBookmark other (site.holding site.inside)).toNat :=
    congrArg Bool.toNat (startsBookmark_eq_of_label_eq rfl)
  simp only [Site.holding, startsIn_element, Site.siblings, if_true, startsAmong_append,
    startsAmong_cons, startsAmong_all] at marker replaced ⊢
  omega

private theorem startCount_parts (other : String) (range : List Node) :
    startCount other (range.filter outlivesReplacement) + startCount other (droppedFrom range) =
      startCount other range := by
  have parts := startsAmong_filter (fun _ => true) other outlivesReplacement range
  simpa only [startsAmong_all, droppedFrom] using parts

private theorem startCount_children_flatten (root : Node) :
    startCount other root.flatten.children = startCount other root.children := by
  rw [← startsAmong_all, startsAmong_children_flatten rfl, startsAmong_all]

/-- A substitution loses the start markers that it drops, and copies those in the formatting. -/
theorem Fills.startCount_eq (fills : Fills root bookmark text filled site path)
    (notHolder : root.kind ≠ .placeholder) (other : String) :
    startCount other filled.children + startCount other (droppedFrom site.inside) =
      startCount other root.children + startCount other (firstFormatting? site.inside).toList := by
  have made : startsAmong (fun _ => true) other filled.children =
      startsAmong (fun _ => true) other
        (root.flatten.replaceAt path site.withPlaceholder).children :=
    fills.startsAmong_children notHolder rfl rfl other
  have replaced := fills.marks.startCount_replaceAt other
    (placeholderFor site.inside :: site.inside.filter outlivesReplacement)
  have placeholder : startsIn (fun _ => true) other (placeholderFor site.inside) =
      startCount other (firstFormatting? site.inside).toList :=
    (startsIn_of_kind (by decide) _ _).trans (startsAmong_all _)
  have parts := startCount_parts other site.inside
  rw [startCount_children_flatten, ← startsAmong_all (_ :: _), startsAmong_cons, startsAmong_all,
    placeholder] at replaced
  rw [startsAmong_all, startsAmong_all, Site.withPlaceholder] at made
  omega

/-- No more start markers are dropped than there are. -/
theorem Fills.startCount_dropped_le (fills : Fills root bookmark text filled site path)
    (other : String) :
    startCount other (droppedFrom site.inside) ≤ startCount other root.children := by
  have kept := fills.marks.startCount_replaceAt other (site.inside.filter outlivesReplacement)
  have parts := startCount_parts other site.inside
  rw [startCount_children_flatten] at kept
  omega

/-- Filling `bookmark` makes away with `other`: all start markers of `other` are at or below nodes
between the markers that are dropped, and none is in the formatting that is kept. -/
def Swallows (root : Node) (bookmark other : String) : Prop :=
  ∃ pair, locate root.flatten bookmark = .ok pair ∧ other ∈ names root ∧
    startCount other (droppedFrom (root.flatten.rangeOf pair)) = startCount other root.children ∧
    startCount other (firstFormatting? (root.flatten.rangeOf pair)).toList = 0

/-- The names in a document after a substitution are those that have not been swallowed. -/
theorem mem_names_of_substitute {revised : Bool} (notHolder : root.kind ≠ .placeholder)
    (success : substitute root revised bookmark text = .ok filled) :
    other ∈ names filled ↔ other ∈ names root ∧ ¬ Swallows root bookmark other := by
  rcases exists_fills_of_kind notHolder success with ⟨site, path, fills⟩
  have balance := fills.startCount_eq notHolder other
  have within := fills.startCount_dropped_le other
  have formatting := startCount_firstFormatting_le other site.inside
  have range := rangeOf_pair fills.marks.reached
  have swallows : Swallows root bookmark other ↔ other ∈ names root ∧
      startCount other (droppedFrom site.inside) = startCount other root.children ∧
      startCount other (firstFormatting? site.inside).toList = 0 := by
    simp only [Swallows, fills.located, Except.ok.injEq, exists_eq_left', range]
  rw [swallows, mem_names_iff, mem_names_iff]
  omega

end Bookmark

end TemplateFill
