import TemplateFill.Proofs.Store.Copies
import TemplateFill.Store.Marker

/-!
# Replacing what is between markers in a store

Markers that have been located are children of one parent, the start before the end.  What is
between them is replaced by giving this parent a placeholder and the children that are left.
-/

namespace TemplateFill

open Relation

namespace NodeStore

variable {store after : NodeStore} {pair : StorePair} {name : String}
  {id above parent top : NodeId} {tops : List NodeId}

/-- A node does not start one bookmark and end another. -/
theorem not_endsBookmark_of_startsBookmark {label : Label}
    (starts : label.startsBookmark name = true) (id : Int) : label.endsBookmark id = false := by
  have kind : label.kind = .bookmarkStart := by
    simp only [Label.startsBookmark, Bool.and_eq_true, beq_iff_eq] at starts
    exact starts.1
  simp [Label.endsBookmark, kind]

/-- What is known of the markers that have been found. -/
theorem distinct_of_findMarkers {start stop : NodeId}
    (found : store.findMarkers name = .ok (start, stop)) : start ≠ stop := by
  rw [findMarkers] at found
  split at found
  · cases found
  · rename_i start' isStart
    split at found
    · cases found
    · rename_i id _
      split at found
      · cases found
      · rename_i stop' isStop
        cases found
        rintro rfl
        have starts := List.find?_some isStart
        have ends := List.find?_some isStop
        rw [not_endsBookmark_of_startsBookmark starts] at ends
        cases ends

/-- Located markers are different children of their parent, the start not behind the end. -/
theorem siblings_of_locate (located : store.locate name = .ok pair) :
    pair.start ≠ pair.stop ∧ store.parent? pair.start = some pair.parent ∧
      store.parent? pair.stop = some pair.parent ∧
      ¬ Option.lt (· < ·) ((store.children pair.parent).idxOf? pair.stop)
        ((store.children pair.parent).idxOf? pair.start) := by
  rw [locate] at located
  cases found : store.findMarkers name with
  | error error => rw [found] at located; cases located
  | ok markers =>
      rcases markers with ⟨start, stop⟩
      have distinct := distinct_of_findMarkers found
      rw [found] at located
      simp only [bind, Except.bind] at located
      split at located
      · cases located
      · rw [NodeStore.pair] at located
        split at located
        · rename_i parent parent' isStart isStop
          split at located
          · rename_i same
            subst same
            dsimp only at located
            split at located
            · cases located
            · rename_i ordered
              cases located
              exact ⟨distinct, isStart, isStop, ordered⟩
          · cases located
        · cases located

/-- The places of located markers among the children of their parent, the start first. -/
theorem WellFormed.places_of_locate (wellFormed : store.WellFormed)
    (located : store.locate name = .ok pair) :
    ∃ first last, (store.children pair.parent).idxOf? pair.start = some first ∧
      (store.children pair.parent).idxOf? pair.stop = some last ∧ first < last := by
  rcases siblings_of_locate located with ⟨distinct, isStart, isStop, ordered⟩
  have place : ∀ {id}, store.parent? id = some pair.parent →
      ∃ index, (store.children pair.parent).idxOf? id = some index := fun linked =>
    Option.isSome_iff_exists.1 (List.isSome_idxOf?.2 ((wellFormed.linked _ _).2 linked))
  rcases place isStart with ⟨first, atFirst⟩
  rcases place isStop with ⟨last, atLast⟩
  rw [atFirst, atLast] at ordered
  have ordered : ¬ last < first := ordered
  refine ⟨first, last, atFirst, atLast, Nat.lt_of_le_of_ne (Nat.le_of_not_lt ordered) ?_⟩
  rintro rfl
  rcases List.idxOf?_eq_some_iff.1 atFirst with ⟨_, found, -⟩
  rcases List.idxOf?_eq_some_iff.1 atLast with ⟨_, found', -⟩
  exact distinct (found.symm.trans found')

/-! ## The placeholder -/

theorem adds_addPlaceholder (wellFormed : store.WellFormed) (range : List NodeId) :
    Adds store (store.addPlaceholder range).1 [(store.addPlaceholder range).2] := by
  have added := Adds.alloc wellFormed (.element (QName.ofTerm Term.placeholder) [])
  rw [addPlaceholder]
  split
  · exact added
  · rw [added.wellFormed.duplicate_eq]
    exact (added.trans (adds_graft _ added.wellFormed).1).append

/-- What is above a node from before is from before, too. -/
theorem Adds.lt_size_of_below (adds : Adds store after tops) (wellFormed : store.WellFormed)
    (used : id < store.size) (below : after.Below id above) : above < store.size := by
  induction below with
  | refl => exact used
  | tail _ step ih =>
      rw [Up, parent?, adds.kept _ ih] at step
      exact wellFormed.parentInRange _ _ step

/-- A node from before can take a new one among children that it has had. -/
theorem Adds.adopts_replacing (adds : Adds store after [top]) (wellFormed : store.WellFormed)
    {left right : List NodeId} (used : parent < store.size)
    (kept : (left ++ right).Sublist (store.children parent)) :
    after.Adopts parent (left ++ top :: right) := by
  have same : after.children parent = store.children parent :=
    congrArg Slot.children (adds.kept parent used)
  have fresh : store.size ≤ top := adds.fresh top List.mem_cons_self
  have perm : (left ++ top :: right).Perm (top :: (left ++ right)) := List.perm_middle
  refine adds.wellFormed.adopts (Nat.lt_of_lt_of_le used adds.grows) ?_ fun child member => ?_
  · refine perm.nodup_iff.2 (List.nodup_cons.2 ⟨fun member => ?_, ?_⟩)
    · exact absurd (wellFormed.childInRange parent top (kept.mem member)) (Nat.not_lt_of_le fresh)
    · exact (wellFormed.nodup parent).sublist kept
  · rcases List.mem_cons.1 (perm.mem_iff.1 member) with rfl | member
    · refine .inr ⟨adds.inRange child List.mem_cons_self, adds.detached child List.mem_cons_self,
        fun below => ?_⟩
      exact absurd (adds.lt_size_of_below wellFormed used below) (Nat.not_lt_of_le fresh)
    · exact .inl (same ▸ kept.mem member)

/-! ## Replacing -/

/-- A list without some of the values of a range. -/
theorem sublist_of_filter_range {ids : List NodeId} {first last : Nat} (ordered : first < last)
    (keeps : NodeId → Bool) :
    (ids.take (first + 1) ++ (((ids.take last).drop (first + 1)).filter keeps ++
      ids.drop last)).Sublist ids := by
  have whole : ids.take (first + 1) ++ ((ids.take last).drop (first + 1) ++ ids.drop last) =
      ids := by
    have left := List.take_append_drop (first + 1) (ids.take last)
    rw [List.take_take, Nat.min_eq_left (Nat.succ_le_of_lt ordered)] at left
    rw [← List.append_assoc, left, List.take_append_drop]
  conv_rhs => rw [← whole]
  exact (List.Sublist.refl _).append (List.filter_sublist.append (.refl _))

/-- The children of two markers' parent with a placeholder in the range between the markers. -/
def besidePlaceholder (store : NodeStore) (siblings : List NodeId) (first last : Nat)
    (placeholder : NodeId) : List NodeId :=
  siblings.take (first + 1) ++ placeholder ::
    (((siblings.take last).drop (first + 1)).filter fun id =>
      (store.label id).outlivesReplacement) ++ siblings.drop last

/-- What is between two markers can be replaced: the store grows by a placeholder, and the parent
of the markers takes it among the children that are left. -/
theorem WellFormed.replaceRange_of_places (wellFormed : store.WellFormed) {first last : Nat}
    (atFirst : (store.children pair.parent).idxOf? pair.start = some first)
    (atLast : (store.children pair.parent).idxOf? pair.stop = some last) (ordered : first < last) :
    ∃ added placeholder,
      store.addPlaceholder (((store.children pair.parent).take last).drop (first + 1)) =
          (added, placeholder) ∧
        store.replaceRange pair = some (added.setChildren pair.parent
          (store.besidePlaceholder (store.children pair.parent) first last placeholder),
            placeholder) ∧
        Adds store added [placeholder] ∧
        added.Adopts pair.parent
          (store.besidePlaceholder (store.children pair.parent) first last placeholder) := by
  have isChild : pair.start ∈ store.children pair.parent := by
    rw [← List.isSome_idxOf?, atFirst]
    rfl
  have adds := adds_addPlaceholder wellFormed
    (((store.children pair.parent).take last).drop (first + 1))
  refine ⟨_, _, rfl, ?_, adds, ?_⟩
  · rw [replaceRange, atFirst, atLast]
    rfl
  · rw [besidePlaceholder, List.append_assoc, List.cons_append]
    exact adds.adopts_replacing wellFormed (lt_size_of_mem_children isChild)
      (sublist_of_filter_range ordered _)

/-- So it can where the markers have been located. -/
theorem WellFormed.replaceRange_of_locate (wellFormed : store.WellFormed)
    (located : store.locate name = .ok pair) :
    ∃ added placeholder children,
      store.replaceRange pair = some (added.setChildren pair.parent children, placeholder) ∧
        Adds store added [placeholder] ∧ added.Adopts pair.parent children := by
  rcases wellFormed.places_of_locate located with ⟨first, last, atFirst, atLast, ordered⟩
  rcases wellFormed.replaceRange_of_places atFirst atLast ordered with
    ⟨added, placeholder, -, replaced, adds, adopts⟩
  exact ⟨added, placeholder, _, replaced, adds, adopts⟩

end NodeStore

end TemplateFill
