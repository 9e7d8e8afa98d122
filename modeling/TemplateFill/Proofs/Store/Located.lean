import Mathlib.Data.List.Nodup
import TemplateFill.Proofs.Markup.Listing
import TemplateFill.Proofs.Store.Position
import TemplateFill.Proofs.Store.Replacement

/-!
# Markers of a store and of its document

In a store and in the document that it represents, the same checks are passed, and the markers of a
bookmark are found at the same positions, or refused for the same reasons.
-/

namespace TemplateFill

open Relation

namespace NodeStore

variable {store : NodeStore} {document : Node} {name : String} {id : NodeId} {path : Path}

/-- What is found first in lists that correspond corresponds. -/
theorem find?_of_forall₂ {α β : Type} {related : α → β → Prop} {accept : α → Bool}
    {accept' : β → Bool} (same : ∀ value value', related value value' →
      accept value = accept' value') {values : List α} {values' : List β}
    (lists : List.Forall₂ related values values') :
    values.find? accept = none ∧ values'.find? accept' = none ∨
      ∃ value value', values.find? accept = some value ∧ values'.find? accept' = some value' ∧
        related value value' := by
  induction lists with
  | nil => exact .inl ⟨rfl, rfl⟩
  | @cons value value' _ _ first _ ih =>
      rw [List.find?_cons, List.find?_cons, ← same value value' first]
      cases accept value with
      | true => exact .inr ⟨value, value', rfl, rfl, first⟩
      | false => exact ih

/-- A node below the root is looked for by its label in the store and in the document. -/
theorem Represents.find?_descendants (represents : store.Represents document)
    (accept : Label → Bool) :
    ((store.descendants store.root).find? fun id => accept (store.label id)) = none ∧
        (document.findPlaced? fun node => accept node.label) = none ∨
      ∃ id place,
        ((store.descendants store.root).find? fun id => accept (store.label id)) = some id ∧
        (document.findPlaced? fun node => accept node.label) = some place ∧
        store.Sits store.root id place ∧ place.1 ≠ [] := by
  have same : ∀ id place, store.Sits store.root id place →
      accept (store.label id) = accept place.2.label := fun id place sits => by rw [sits.2]
  rcases find?_of_forall₂ same represents.sits_descendants with none | ⟨id, place, one, other, sits⟩
  · exact .inl none
  · have inside := (Node.mem_placed_iff.1 (List.mem_of_find?_eq_some other)).1
    exact .inr ⟨id, place, one, other, sits, inside⟩

/-- The start marker of a bookmark is found in both or in neither. -/
theorem Represents.findStart?_agrees (represents : store.Represents document) (name : String) :
    store.findStart? name = none ∧ Bookmark.findStart? document name = none ∨
      ∃ start place, store.findStart? name = some start ∧
        Bookmark.findStart? document name = some place ∧
        store.Sits store.root start place ∧ place.1 ≠ [] :=
  represents.find?_descendants (·.startsBookmark name)

/-- Both markers are at the positions that the document has for them. -/
structure MarkersAt (store : NodeStore) (markers : NodeId × NodeId) (places : Path × Path) :
    Prop where
  start : store.follow? store.root places.1 = some markers.1
  stop : store.follow? store.root places.2 = some markers.2
  startBelow : places.1 ≠ []
  stopBelow : places.2 ≠ []
  distinct : markers.1 ≠ markers.2

theorem Represents.findMarkers_agrees (represents : store.Represents document) (name : String) :
    Agrees store.MarkersAt (store.findMarkers name) (Bookmark.findMarkers document name) := by
  have found : ∀ {markers}, store.findMarkers name = .ok markers → markers.1 ≠ markers.2 :=
    distinct_of_findMarkers
  revert found
  rw [findMarkers, Bookmark.findMarkers]
  rcases represents.findStart?_agrees name with
    ⟨missing, missing'⟩ | ⟨start, place, one, other, sits, below⟩
  · rw [missing, missing']
    exact fun _ => rfl
  · rw [one, other]
    have id : place.2.markerId? = (store.label start).markerId? := by
      rw [sits.2]
      rfl
    dsimp only
    rw [id]
    cases (store.label start).markerId? with
    | none => exact fun _ => rfl
    | some number =>
        dsimp only
        rcases represents.find?_descendants (·.endsBookmark number) with
          ⟨missing, missing'⟩ | ⟨stop, place', one', other', sits', below'⟩
        · have missing' : document.findPlaced? (·.endsBookmark number) = none := missing'
          rw [missing, missing']
          exact fun _ => rfl
        · have other' : document.findPlaced? (·.endsBookmark number) = some place' := other'
          rw [one', other']
          exact fun found => ⟨sits.1, sits'.1, below, below', found rfl⟩

/-! ## Checks -/

/-- The node at a position that is not the root has a parent, which is at the position above. -/
theorem Represents.parent?_of_follow? (represents : store.Represents document)
    (reached : store.follow? store.root path = some id) (below : path ≠ []) :
    ∃ parent node, store.parent? id = some parent ∧
      store.follow? store.root path.dropLast = some parent ∧
      document.at? path.dropLast = some node ∧ store.label parent = node.label := by
  rcases List.eq_nil_or_concat path with rfl | ⟨above, index, rfl⟩
  · exact absurd rfl below
  rw [List.concat_eq_append] at reached ⊢
  rcases follow?_concat reached with ⟨parent, isParent, step⟩
  rcases represents.at?_of_follow? isParent with ⟨node, found, top⟩
  have linked := (represents.linked parent id).1 (List.mem_of_getElem? step)
  rw [List.dropLast_concat]
  exact ⟨parent, node, linked, isParent, found, represents.toWellFormed.label_eq top⟩

/-- The labels below the root are those of the document. -/
theorem Represents.map_label_descendants (represents : store.Represents document) :
    (store.descendants store.root).map store.label = document.descendants.map Node.label := by
  rw [← Node.placed_map_snd, List.map_map, ← List.forall₂_eq_eq_eq, List.forall₂_map_left_iff,
    List.forall₂_map_right_iff]
  exact represents.sits_descendants.imp fun id place sits => sits.2

/-- A document is checked in the store as it is by itself. -/
theorem Represents.validate_eq (represents : store.Represents document) (revised : Bool)
    (name : String) : store.validate revised name = Bookmark.validate document revised name := by
  have controls := congrArg (·.any fun label => label.kind == .contentControl)
    represents.map_label_descendants
  simp only [List.any_map, Function.comp_def] at controls
  rw [validate, Bookmark.validate, controls]
  rcases represents.findStart?_agrees name with
    ⟨missing, missing'⟩ | ⟨start, ⟨path, marker⟩, one, other, sits, below⟩
  · rw [missing, missing']
  · rcases represents.parent?_of_follow? sits.1 below with
      ⟨parent, node, linked, -, found, label⟩
    rw [one, other]
    simp only [linked, found, label, Option.any_some]
    rfl

/-! ## Containers -/

/-- The nodes above a position are those above the node there. -/
theorem Represents.map_label_ancestors (represents : store.Represents document)
    (reached : store.follow? store.root path = some id) :
    (store.ancestors id).map store.label = (document.enclosing path).reverse.map Node.label := by
  induction path using List.reverseRecOn generalizing id with
  | nil =>
      cases reached
      rw [ancestors_of_detached represents.rootDetached]
      rfl
  | append_singleton path index ih =>
      rcases represents.parent?_of_follow? reached (by simp) with
        ⟨parent, node, linked, isParent, found, label⟩
      rw [List.dropLast_concat] at isParent found
      rw [represents.toWellFormed.ancestors_eq linked, List.map_cons, ih isParent,
        Node.enclosing_concat found, List.reverse_append, label]
      rfl

/-- The nearest container is the same. -/
theorem Represents.nearestContainer?_eq (represents : store.Represents document)
    (reached : store.follow? store.root path = some id) :
    store.nearestContainer? id = Bookmark.nearestContainer? document path := by
  have labels := congrArg (List.findSome? Label.container?)
    (represents.map_label_ancestors reached)
  rw [List.findSome?_map, List.findSome?_map] at labels
  exact labels

/-! ## Pairs -/

/-- A pair is at the places that the document has for it: the markers are children of the parent,
at the two indexes. -/
structure PairAt (store : NodeStore) (pair : StorePair) (places : MarkerPair) : Prop where
  parent : store.follow? store.root places.parent = some pair.parent
  first : (store.children pair.parent)[places.first]? = some pair.start
  last : (store.children pair.parent)[places.last]? = some pair.stop

/-- Where no child is listed twice, the index of a child is the one at which it stands. -/
theorem idxOf?_of_getElem? {ids : List NodeId} {index : Nat} (nodup : ids.Nodup)
    (found : ids[index]? = some id) : ids.idxOf? id = some index := by
  rcases List.getElem?_eq_some_iff.1 found with ⟨inside, value⟩
  refine List.idxOf?_eq_some_iff.2 ⟨inside, value, fun earlier before same => ?_⟩
  exact Nat.ne_of_lt before (nodup.getElem_inj_iff.1 (same.trans value.symm))

/-- What two markers make agrees. -/
theorem Represents.pair_agrees (represents : store.Represents document) {markers : NodeId × NodeId}
    {places : Path × Path} (found : store.MarkersAt markers places) (name : String) :
    Agrees store.PairAt (store.pair name markers.1 markers.2)
      (Bookmark.pair name places.1 places.2) := by
  rcases markers with ⟨start, stop⟩
  rcases places with ⟨startPath, stopPath⟩
  rcases found with ⟨isStart, isStop, startBelow, stopBelow, distinct⟩
  rcases List.eq_nil_or_concat startPath with rfl | ⟨path, first, rfl⟩
  · exact absurd rfl startBelow
  rcases List.eq_nil_or_concat stopPath with rfl | ⟨path', last, rfl⟩
  · exact absurd rfl stopBelow
  simp only [List.concat_eq_append] at isStart isStop
  rcases follow?_concat isStart with ⟨parent, isParent, atFirst⟩
  rcases follow?_concat isStop with ⟨parent', isParent', atLast⟩
  have linked := (represents.linked _ _).1 (List.mem_of_getElem? atFirst)
  have linked' := (represents.linked _ _).1 (List.mem_of_getElem? atLast)
  have ends : ∀ (path : Path) (index : Nat), (path ++ [index]).getLastD 0 = index := by simp
  rw [NodeStore.pair, linked, linked', Bookmark.pair]
  simp only [List.concat_eq_append, List.dropLast_concat, ends]
  by_cases same : path = path'
  · subst same
    cases isParent.symm.trans isParent'
    have indexFirst := idxOf?_of_getElem? (represents.nodup parent) atFirst
    have indexLast := idxOf?_of_getElem? (represents.nodup parent) atLast
    have other : first ≠ last := by
      rintro rfl
      exact distinct (Option.some.inj (atFirst.symm.trans atLast))
    have order : Option.lt (· < ·) (some last) (some first) ↔ ¬ first < last := by
      rw [show Option.lt (· < ·) (some last) (some first) ↔ last < first from .rfl]
      omega
    rw [if_pos rfl, if_pos rfl, indexFirst, indexLast]
    by_cases ordered : first < last
    · rw [if_neg fun lt => order.1 lt ordered, dif_pos ordered]
      exact ⟨isParent, atFirst, atLast⟩
    · rw [if_pos (order.2 ordered), dif_neg ordered]
      exact rfl
  · have apart : parent ≠ parent' := by
      rintro rfl
      exact same (represents.toWellRooted.follow?_inj isParent isParent')
    rw [if_neg apart, if_neg same]
    exact rfl

/-- The markers of a bookmark are located at the same places, or refused for the same reason. -/
theorem Represents.locate_agrees (represents : store.Represents document) (name : String) :
    Agrees store.PairAt (store.locate name) (Bookmark.locate document name) := by
  rw [NodeStore.locate, Bookmark.locate]
  refine (represents.findMarkers_agrees name).bind fun markers places found => ?_
  rcases markers with ⟨start, stop⟩
  rcases places with ⟨startPath, stopPath⟩
  have containers := represents.nearestContainer?_eq found.start
  have containers' := represents.nearestContainer?_eq found.stop
  dsimp only at containers containers' ⊢
  rw [containers, containers']
  cases (Bookmark.nearestContainer? document startPath).or
      (Bookmark.nearestContainer? document stopPath) with
  | some container => exact rfl
  | none => exact represents.pair_agrees found name

end NodeStore

end TemplateFill
