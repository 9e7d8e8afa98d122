import TemplateFill.Proofs.Bookmark.Group
import TemplateFill.Proofs.Store.Adding

/-!
# Passes leave well-formed stores

Every pass adds nodes to a fresh store and ends with one that is detached, the root of a
well-formed store.  Where the source holds a document, the result holds what the same pass
makes of the document tree.
-/

namespace TemplateFill

namespace NodeStore

variable {store source origin : NodeStore}

/-! ## The flat form -/

mutual

theorem adds_addFlat : ∀ (branch : Branch) {store : NodeStore}, store.WellFormed →
    Adds store (store.addFlat branch).1 (store.addFlat branch).2
  | .mk label children, store, wellFormed => by
      rw [addFlat]
      split
      · have content := (adds_addContent children wellFormed).perm List.perm_append_comm
        exact (content.addOver label).1.perm (List.perm_append_singleton _ _).symm
      · exact (adds_graft _ wellFormed).1
      · have below := adds_addFlatAll children wellFormed
        rw [← List.append_nil (store.addFlatAll children).2] at below
        exact (below.addOver label).1

theorem adds_addFlatAll : ∀ (branches : List Branch) {store : NodeStore}, store.WellFormed →
    Adds store (store.addFlatAll branches).1 (store.addFlatAll branches).2
  | [], store, wellFormed => .refl wellFormed
  | branch :: rest, store, wellFormed => by
      have first := adds_addFlat branch wellFormed
      rw [addFlatAll]
      exact first.trans (adds_addFlatAll rest first.wellFormed)

theorem adds_addContent : ∀ (branches : List Branch) {store : NodeStore}, store.WellFormed →
    Adds store (store.addContent branches).1
      ((store.addContent branches).2.1 ++ (store.addContent branches).2.2)
  | [], store, wellFormed => .refl wellFormed
  | branch :: rest, store, wellFormed => by
      rw [addContent]
      split
      · have props := (adds_graft branch wellFormed).1
        have both := props.trans (adds_addContent rest props.wellFormed)
        rw [List.singleton_append] at both
        exact both.perm List.perm_middle.symm
      · have first := adds_addFlat branch wellFormed
        have others := adds_addContent rest first.wellFormed
        rw [List.append_assoc]
        exact first.trans others

end

/-! ## Regrouping -/

namespace Rebuild

/-- Siblings that are rebuilt as single detached nodes. -/
def AllAdd (rebuilds : List Rebuild) : Prop :=
  ∀ rebuild ∈ rebuilds, ∀ store : NodeStore, store.WellFormed →
    Adds store (rebuild.add store).1 [(rebuild.add store).2]

theorem AllAdd.mono {rebuilds others : List Rebuild} (all : AllAdd rebuilds)
    (among : others ⊆ rebuilds) : AllAdd others := fun rebuild member => all rebuild (among member)

end Rebuild

theorem adds_addEach : ∀ {rebuilds : List Rebuild}, Rebuild.AllAdd rebuilds →
    ∀ {store : NodeStore}, store.WellFormed →
      Adds store (store.addEach rebuilds).1 (store.addEach rebuilds).2
  | [], _, store, wellFormed => .refl wellFormed
  | rebuild :: rest, all, store, wellFormed => by
      have first := all rebuild List.mem_cons_self store wellFormed
      rw [addEach]
      exact first.trans (adds_addEach (all.mono (List.subset_cons_self _ _)) first.wellFormed)

theorem adds_addGroup {group : List Rebuild} (all : Rebuild.AllAdd group)
    (wellFormed : store.WellFormed) :
    Adds store (store.addGroup group).1 (store.addGroup group).2 := by
  rw [addGroup]
  split
  · split
    · have paragraph := Adds.alloc wellFormed ‹Label›
      have props := (adds_graftAll ‹List Branch› paragraph.wellFormed).1
      have members := adds_addEach (all.mono (List.dropLast_subset group)) props.wellFormed
      exact (Adds.fill wellFormed (props.trans members)).1
    · exact adds_addEach all wellFormed
  · exact .refl wellFormed

theorem adds_addGroups : ∀ {groups : List (List Rebuild)},
    (∀ group ∈ groups, Rebuild.AllAdd group) → ∀ {store : NodeStore}, store.WellFormed →
      Adds store (store.addGroups groups).1 (store.addGroups groups).2
  | [], _, store, wellFormed => .refl wellFormed
  | group :: rest, all, store, wellFormed => by
      rw [List.forall_mem_cons] at all
      have first := adds_addGroup all.1 wellFormed
      rw [addGroups]
      exact first.trans (adds_addGroups all.2 first.wellFormed)

theorem adds_addSiblings {siblings : List Rebuild} (all : Rebuild.AllAdd siblings)
    (wellFormed : store.WellFormed) :
    Adds store (store.addSiblings siblings).1 (store.addSiblings siblings).2 := by
  rw [addSiblings]
  split
  · exact adds_addGroups
      (fun group member => all.mono (subset_of_mem_groupsAfter member)) wellFormed
  · exact adds_addEach all wellFormed

mutual

theorem adds_addRegrouped : ∀ (branch : Branch) {store : NodeStore}, store.WellFormed →
    Adds store (store.addRegrouped branch).1 [(store.addRegrouped branch).2]
  | .mk label children, store, wellFormed => by
      rw [addRegrouped]
      split
      · exact (adds_graft _ wellFormed).1
      · have below := adds_addSiblings (allAdd_rebuildsOf children) wellFormed
        rw [← List.append_nil (store.addSiblings (rebuildsOf children)).2] at below
        exact (below.addOver label).1

theorem allAdd_rebuildsOf : ∀ branches : List Branch, Rebuild.AllAdd (rebuildsOf branches)
  | [] => by
      rw [rebuildsOf]
      exact nofun
  | branch :: rest => by
      rw [rebuildsOf]
      exact List.forall_mem_cons.2 ⟨fun store wellFormed => adds_addRegrouped branch wellFormed,
        allAdd_rebuildsOf rest⟩

end

/-! ## Placeholders -/

section Resolved

variable {spell : Term → QName} {text : String}

mutual

theorem adds_addResolved : ∀ (branch : Branch) {outer : Kind} {store : NodeStore},
    store.WellFormed →
      Adds store (store.addResolved spell text outer branch).1
        [(store.addResolved spell text outer branch).2]
  | .mk label children, outer, store, wellFormed => by
      rw [addResolved]
      split
      · exact (adds_graft _ wellFormed).1
      · split
        · exact ((adds_graft _ wellFormed).1.addAround _).1
        · exact (adds_graft _ wellFormed).1
      · exact (Adds.fill wellFormed
          (adds_addResolvedAll children (Adds.alloc wellFormed label).wellFormed)).1

theorem adds_addResolvedAll : ∀ (branches : List Branch) {outer : Kind} {store : NodeStore},
    store.WellFormed →
      Adds store (store.addResolvedAll spell text outer branches).1
        (store.addResolvedAll spell text outer branches).2
  | [], outer, store, wellFormed => .refl wellFormed
  | branch :: rest, outer, store, wellFormed => by
      have first : Adds store (store.addResolved spell text outer branch).1
          [(store.addResolved spell text outer branch).2] := adds_addResolved branch wellFormed
      rw [addResolvedAll]
      exact first.trans (adds_addResolvedAll rest first.wellFormed)

end

/-! ## Runs in the body -/

mutual

theorem adds_addWrapped : ∀ (branch : Branch) {store : NodeStore}, store.WellFormed →
    Adds store (store.addWrapped spell branch).1 [(store.addWrapped spell branch).2]
  | .mk label children, store, wellFormed => by
      rw [addWrapped]
      split
      · exact (adds_graft _ wellFormed).1
      · exact (Adds.fill wellFormed
          (adds_addWrappedAll children (Adds.alloc wellFormed label).wellFormed)).1

theorem adds_addWrappedAll : ∀ (branches : List Branch) {outer : Kind} {store : NodeStore},
    store.WellFormed →
      Adds store (store.addWrappedAll spell outer branches).1
        (store.addWrappedAll spell outer branches).2
  | [], outer, store, wellFormed => .refl wellFormed
  | branch :: rest, outer, store, wellFormed => by
      have inner := adds_addWrapped branch wellFormed
      rw [addWrappedAll]
      split
      · have first := (inner.addAround (.element (spell Term.paragraph) [])).1
        exact first.trans (adds_addWrappedAll rest first.wellFormed)
      · exact inner.trans (adds_addWrappedAll rest inner.wellFormed)

end

end Resolved

end NodeStore

end TemplateFill
