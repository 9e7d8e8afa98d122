import Mathlib.Logic.Relation
import Mathlib.Tactic.SplitIfs
import TemplateFill.Store.Walk

/-!
# Links that agree

Every link is kept twice, at the child and at the parent.  In a well-formed store both sides
agree and no links lead round in a circle.  All operations that move nodes give one parent
other children, so there is one lemma on what that leaves well formed.
-/

namespace TemplateFill

open Relation

theorem Slot.eq_of_links {left right : Slot} (labels : left.label = right.label)
    (parents : left.parent = right.parent) (lists : left.children = right.children) :
    left = right := by
  cases left
  cases right
  simp_all

namespace NodeStore

variable {store before after : NodeStore} {id parent child : NodeId} {children : List NodeId}

/-- A parent link, from the child to the parent. -/
def Up (store : NodeStore) (child parent : NodeId) : Prop := store.parent? child = some parent

/-- Parent links lead from `id` to `top`, or `id` is `top`. -/
def Below (store : NodeStore) (id top : NodeId) : Prop := ReflTransGen store.Up id top

/-- The links of both sides are to nodes of the store and agree, and none lead in a circle. -/
structure WellFormed (store : NodeStore) : Prop where
  childInRange : ∀ parent, ∀ child ∈ store.children parent, child < store.size
  parentInRange : ∀ child parent, store.parent? child = some parent → parent < store.size
  nodup : ∀ parent, (store.children parent).Nodup
  linked : ∀ parent child, child ∈ store.children parent ↔ store.parent? child = some parent
  acyclic : ∀ id, ¬ TransGen store.Up id id

theorem eq_of_below (detached : store.parent? id = none) (below : store.Below id parent) :
    id = parent := by
  rcases below.cases_head with same | ⟨_, up, -⟩
  · exact same
  · rw [Up, detached] at up
    cases up

/-- Of two siblings neither is below the other. -/
theorem WellFormed.not_below_sibling (wellFormed : store.WellFormed) {top sibling : NodeId}
    (linked : store.parent? child = some top) (linked' : store.parent? sibling = some top)
    (other : child ≠ sibling) : ¬ store.Below child sibling := by
  intro below
  rcases below.cases_head with same | ⟨_, up, below⟩
  · exact other same
  · rw [Up, linked, Option.some.injEq] at up
    exact wellFormed.acyclic sibling (.head' linked' (up ▸ below))

/-! ## Nodes after an update -/

theorem slot_of_size_le (unused : store.size ≤ id) : store.slot id = default := by
  rw [slot, Array.getElem?_eq_none unused]
  rfl

theorem lt_size_of_parent? (linked : store.parent? child = some parent) : child < store.size := by
  refine Nat.lt_of_not_le fun unused => ?_
  rw [parent?, slot_of_size_le unused] at linked
  cases linked

theorem lt_size_of_mem_children (member : child ∈ store.children parent) :
    parent < store.size := by
  refine Nat.lt_of_not_le fun unused => ?_
  rw [NodeStore.children, slot_of_size_le unused] at member
  cases member

theorem lt_size_of_below (used : parent < store.size) (below : store.Below id parent) :
    id < store.size := by
  rcases below.cases_head with rfl | ⟨_, up, -⟩
  · exact used
  · exact lt_size_of_parent? up

theorem slot_update (store : NodeStore) (id : NodeId) (change : Slot → Slot) (other : NodeId) :
    (store.update id change).slot other =
      if other = id ∧ id < store.size then change (store.slot id) else store.slot other := by
  by_cases same : other = id
  · subst same
    by_cases used : other < store.size
    · simp [slot_update_self used, used]
    · have unused : store.size ≤ other := Nat.le_of_not_lt used
      rw [slot_of_size_le (by rwa [size_update]), slot_of_size_le unused]
      simp [used]
  · simp [slot_update_of_ne same, same]

@[simp] theorem label_setParent (store : NodeStore) (link : Option NodeId) (id other : NodeId) :
    (store.setParent link id).label other = store.label other := by
  simp only [label, setParent, slot_update]
  split <;> simp_all

@[simp] theorem children_setParent (store : NodeStore) (link : Option NodeId)
    (id other : NodeId) : (store.setParent link id).children other = store.children other := by
  simp only [NodeStore.children, setParent, slot_update]
  split <;> simp_all

@[simp] theorem label_updateChildren (store : NodeStore) (id : NodeId)
    (change : List NodeId → List NodeId) (other : NodeId) :
    (store.updateChildren id change).label other = store.label other := by
  simp only [label, updateChildren, slot_update]
  split <;> simp_all

@[simp] theorem parent?_updateChildren (store : NodeStore) (id : NodeId)
    (change : List NodeId → List NodeId) (other : NodeId) :
    (store.updateChildren id change).parent? other = store.parent? other := by
  simp only [parent?, updateChildren, slot_update]
  split <;> simp_all

theorem parent?_setParent (used : id < store.size) (link : Option NodeId) (other : NodeId) :
    (store.setParent link id).parent? other = if other = id then link else store.parent? other := by
  simp only [parent?, setParent, slot_update, used, and_true]
  split <;> rfl

theorem children_updateChildren (used : id < store.size) (change : List NodeId → List NodeId)
    (other : NodeId) : (store.updateChildren id change).children other =
      if other = id then change (store.children id) else store.children other := by
  simp only [NodeStore.children, updateChildren, slot_update, used, and_true]
  split <;> rfl

@[simp] theorem root_setParent (store : NodeStore) (link : Option NodeId) (id : NodeId) :
    (store.setParent link id).root = store.root := rfl

@[simp] theorem root_updateChildren (store : NodeStore) (id : NodeId)
    (change : List NodeId → List NodeId) : (store.updateChildren id change).root = store.root := rfl

/-- A store is told by its nodes and its root. -/
theorem ext_slot (sizes : before.size = after.size) (roots : before.root = after.root)
    (labels : ∀ id, before.label id = after.label id)
    (parents : ∀ id, before.parent? id = after.parent? id)
    (lists : ∀ id, before.children id = after.children id) : before = after := by
  have slots : before.slots = after.slots := by
    refine Array.ext sizes fun index used used' => ?_
    have ofSlot : ∀ {store : NodeStore} (used : index < store.slots.size),
        store.slots[index] = store.slot index := fun used => by
      rw [slot, Array.getElem?_eq_getElem used]
      rfl
    rw [ofSlot used, ofSlot used']
    exact Slot.eq_of_links (labels index) (parents index) (lists index)
  cases before
  cases after
  simp_all

/-! ## Other children for a parent -/

section SetParents

variable {link : Option NodeId} {ids : List NodeId}

private theorem size_setParents (store : NodeStore) (link : Option NodeId) (ids : List NodeId) :
    (ids.foldl (setParent · link) store).size = store.size := by
  induction ids generalizing store with
  | nil => rfl
  | cons id rest ih => rw [List.foldl_cons, ih, size_setParent]

private theorem root_setParents (store : NodeStore) (link : Option NodeId) (ids : List NodeId) :
    (ids.foldl (setParent · link) store).root = store.root := by
  induction ids generalizing store with
  | nil => rfl
  | cons id rest ih => rw [List.foldl_cons, ih, root_setParent]

private theorem label_setParents (store : NodeStore) (link : Option NodeId) (ids : List NodeId)
    (other : NodeId) : (ids.foldl (setParent · link) store).label other = store.label other := by
  induction ids generalizing store with
  | nil => rfl
  | cons id rest ih => rw [List.foldl_cons, ih, label_setParent]

private theorem children_setParents (store : NodeStore) (link : Option NodeId)
    (ids : List NodeId) (other : NodeId) :
    (ids.foldl (setParent · link) store).children other = store.children other := by
  induction ids generalizing store with
  | nil => rfl
  | cons id rest ih => rw [List.foldl_cons, ih, children_setParent]

private theorem parent?_setParents (used : ∀ id ∈ ids, id < store.size) (other : NodeId) :
    (ids.foldl (setParent · link) store).parent? other =
      if other ∈ ids then link else store.parent? other := by
  induction ids generalizing store with
  | nil => simp
  | cons id rest ih =>
      have used' : ∀ inner ∈ rest, inner < (store.setParent link id).size := fun inner member => by
        rw [size_setParent]
        exact used inner (List.mem_cons_of_mem _ member)
      rw [List.foldl_cons, ih used', parent?_setParent (used id List.mem_cons_self)]
      simp only [List.mem_cons]
      split_ifs <;> simp_all

end SetParents

@[simp] theorem size_setChildren (store : NodeStore) (parent : NodeId) (children : List NodeId) :
    (store.setChildren parent children).size = store.size := by
  simp only [setChildren, size_updateChildren, size_setParents]

@[simp] theorem root_setChildren (store : NodeStore) (parent : NodeId) (children : List NodeId) :
    (store.setChildren parent children).root = store.root := by
  simp only [setChildren, root_updateChildren, root_setParents]

@[simp] theorem label_setChildren (store : NodeStore) (parent : NodeId) (children : List NodeId)
    (other : NodeId) : (store.setChildren parent children).label other = store.label other := by
  simp only [setChildren, label_updateChildren, label_setParents]

theorem children_setChildren (used : parent < store.size) (children : List NodeId)
    (other : NodeId) : (store.setChildren parent children).children other =
      if other = parent then children else store.children other := by
  simp only [setChildren]
  rw [children_updateChildren (by simpa only [size_setParents] using used)]
  simp only [children_setParents]

theorem WellFormed.parent?_setChildren (wellFormed : store.WellFormed)
    (used : ∀ child ∈ children, child < store.size) (parent other : NodeId) :
    (store.setChildren parent children).parent? other =
      if other ∈ children then some parent
      else if other ∈ store.children parent then none else store.parent? other := by
  simp only [setChildren, parent?_updateChildren]
  rw [parent?_setParents (by simpa only [size_setParents] using used),
    parent?_setParents (wellFormed.childInRange parent)]

/-- A parent can take nodes as its children: each is detached or its child already, and neither
the parent nor above it. -/
structure Adopts (store : NodeStore) (parent : NodeId) (children : List NodeId) : Prop where
  parentInRange : parent < store.size
  inRange : ∀ child ∈ children, child < store.size
  nodup : children.Nodup
  free : ∀ child ∈ children, store.parent? child = none ∨ store.parent? child = some parent
  apart : ∀ child ∈ children, ¬ store.Below parent child

/-- A parent can take its own children again, and nodes that are detached and not above it. -/
theorem WellFormed.adopts (wellFormed : store.WellFormed) (parentInRange : parent < store.size)
    (nodup : children.Nodup) (members : ∀ child ∈ children, child ∈ store.children parent ∨
      child < store.size ∧ store.parent? child = none ∧ ¬ store.Below parent child) :
    store.Adopts parent children where
  parentInRange := parentInRange
  inRange child member := by
    rcases members child member with own | ⟨used, -, -⟩
    · exact wellFormed.childInRange parent child own
    · exact used
  nodup := nodup
  free child member := by
    rcases members child member with own | ⟨-, detached, -⟩
    · exact .inr ((wellFormed.linked parent child).1 own)
    · exact .inl detached
  apart child member := by
    rcases members child member with own | ⟨-, -, apart⟩
    · have step := (wellFormed.linked parent child).1 own
      exact fun below => wellFormed.acyclic child (.head' step below)
    · exact apart

/-- A store is well formed when its links agree; that they are in range follows. -/
theorem wellFormed_of_linked (nodup : ∀ parent, (store.children parent).Nodup)
    (linked : ∀ parent child, child ∈ store.children parent ↔ store.parent? child = some parent)
    (acyclic : ∀ id, ¬ TransGen store.Up id id) : store.WellFormed where
  childInRange parent child member := lt_size_of_parent? ((linked parent child).1 member)
  parentInRange child parent up := lt_size_of_mem_children ((linked parent child).2 up)
  nodup := nodup
  linked := linked
  acyclic := acyclic

/-- A way up after `parent` has got children is one from before, or passes one of them. -/
private theorem transGen_of_adopted {last : NodeId}
    (up : ∀ child above, after.Up child above →
      before.Up child above ∨ child ∈ children ∧ above = parent)
    (way : TransGen after.Up id last) :
    TransGen before.Up id last ∨
      ∃ child ∈ children, before.Below id child ∧ before.Below parent last := by
  induction way with
  | single step =>
      rcases up _ _ step with step | ⟨member, rfl⟩
      · exact .inl (.single step)
      · exact .inr ⟨id, member, .refl, .refl⟩
  | tail _ step ih =>
      rcases up _ _ step with step | ⟨member, rfl⟩
      · rcases ih with way | ⟨child, member, below, above⟩
        · exact .inl (way.tail step)
        · exact .inr ⟨child, member, below, above.tail step⟩
      · rcases ih with way | ⟨child, member', below, -⟩
        · exact .inr ⟨_, member, way.to_reflTransGen, .refl⟩
        · exact .inr ⟨child, member', below, .refl⟩

theorem WellFormed.setChildren (wellFormed : store.WellFormed)
    (adopts : store.Adopts parent children) : (store.setChildren parent children).WellFormed := by
  have lists := children_setChildren adopts.parentInRange children
  have links := wellFormed.parent?_setChildren adopts.inRange parent
  refine wellFormed_of_linked ?_ ?_ ?_
  · intro other
    rw [lists]
    split_ifs
    · exact adopts.nodup
    · exact wellFormed.nodup other
  · intro other child
    have linked := wellFormed.linked other child
    have linkedHere := wellFormed.linked parent child
    have free := adopts.free child
    rw [lists, links]
    split_ifs <;> grind
  · intro id circle
    have up : ∀ child above, (store.setChildren parent children).Up child above →
        store.Up child above ∨ child ∈ children ∧ above = parent := by
      intro child above step
      rw [Up, links] at step
      split_ifs at step with member
      · exact .inr ⟨member, (Option.some.inj step).symm⟩
      · exact .inl step
    rcases transGen_of_adopted up circle with circle | ⟨child, member, below, above⟩
    · exact wellFormed.acyclic id circle
    · exact adopts.apart child member (above.trans below)

/-! ## The other operations on links -/

/-- The list with `value` behind `sibling` has `value` as its one new member. -/
theorem perm_insertBehind (sibling value : NodeId) (ids : List NodeId) :
    (insertBehind sibling value ids).Perm (value :: ids) := by
  induction ids with
  | nil => exact .refl _
  | cons first rest ih =>
      rw [insertBehind]
      split
      · exact .swap ..
      · exact (ih.cons first).trans (.swap ..)

namespace WellFormed

/-- Changing one parent link and the list of one parent is giving this parent other children,
if the list goes with the link. -/
private theorem relink_eq (wellFormed : store.WellFormed) {link : Option NodeId}
    {change : List NodeId → List NodeId} (parentInRange : parent < store.size)
    (inRange : child < store.size)
    (used : ∀ id ∈ change (store.children parent), id < store.size)
    (links : ∀ id, (if id = child then link else store.parent? id) =
      if id ∈ change (store.children parent) then some parent
      else if id ∈ store.children parent then none else store.parent? id) :
    (store.setParent link child).updateChildren parent change =
      store.setChildren parent (change (store.children parent)) := by
  refine ext_slot (by simp) (by simp) (fun id => by simp) (fun id => ?_) fun id => ?_
  · rw [parent?_updateChildren, parent?_setParent inRange, wellFormed.parent?_setChildren used,
      links]
  · rw [children_updateChildren (by rwa [size_setParent]), children_setChildren parentInRange]
    simp only [children_setParent]

/-- Linking a node to a parent is giving the parent one child more. -/
private theorem link_eq (wellFormed : store.WellFormed) {change : List NodeId → List NodeId}
    (parentInRange : parent < store.size) (inRange : child < store.size)
    (members : ∀ id, id ∈ change (store.children parent) ↔
      id ∈ store.children parent ∨ id = child) :
    (store.setParent (some parent) child).updateChildren parent change =
      store.setChildren parent (change (store.children parent)) := by
  refine wellFormed.relink_eq parentInRange inRange (fun id member => ?_) fun id => ?_
  · rcases (members id).1 member with member | rfl
    · exact wellFormed.childInRange parent id member
    · exact inRange
  · have linked := wellFormed.linked parent id
    have member := members id
    grind

/-- Appending a detached node is giving the parent one child more. -/
theorem append_eq (wellFormed : store.WellFormed) (parentInRange : parent < store.size)
    (inRange : child < store.size) :
    store.append parent child =
      store.setChildren parent (store.children parent ++ [child]) := by
  rw [append]
  exact wellFormed.link_eq parentInRange inRange fun id => by simp

/-- Inserting a detached node behind a sibling is giving their parent one child more. -/
theorem insertAfter_eq (wellFormed : store.WellFormed) {sibling : NodeId}
    (linked : store.parent? sibling = some parent) (inRange : id < store.size) :
    store.insertAfter sibling id =
      store.setChildren parent (insertBehind sibling id (store.children parent)) := by
  rw [insertAfter, linked]
  exact wellFormed.link_eq (wellFormed.parentInRange _ _ linked) inRange fun other => by
    simp [(perm_insertBehind ..).mem_iff, or_comm]

/-- Detaching a node is giving its parent the other children. -/
theorem detach_eq (wellFormed : store.WellFormed) (linked : store.parent? id = some parent) :
    store.detach id = store.setChildren parent ((store.children parent).filter (· ≠ id)) := by
  rw [detach, linked]
  refine wellFormed.relink_eq (wellFormed.parentInRange _ _ linked) (lt_size_of_parent? linked)
    (fun other member => wellFormed.childInRange parent other (List.mem_filter.1 member).1)
    fun other => ?_
  have linked' := wellFormed.linked parent other
  grind

end WellFormed

end NodeStore

end TemplateFill
