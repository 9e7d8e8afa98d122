import Mathlib.Data.List.Perm.Subperm
import TemplateFill.Proofs.Store.Links

/-!
# Walks in well-formed stores

Where links do not lead in a circle, no way is longer than the store has nodes, so the bound
of a walk is never reached: the ancestors of a node are its parent and the ancestors of this,
and its branch is its label over the branches of its children.
-/

namespace TemplateFill

open Relation

namespace NodeStore

variable {store before after : NodeStore} {id parent child : NodeId} {children : List NodeId}

/-! ## Ancestors -/

/-- The first `limit` nodes above a node. -/
def ancestorsTo (store : NodeStore) (limit : Nat) (id : NodeId) : List NodeId :=
  valuesOf store.nextAbove? limit (store.parent? id)

/-- A walk up comes to the parent first and goes on from there. -/
theorem ancestorsTo_succ_eq (store : NodeStore) (limit : Nat) (id : NodeId) :
    store.ancestorsTo (limit + 1) id =
      match store.parent? id with
      | none => []
      | some parent => parent :: store.ancestorsTo limit parent := by
  rw [ancestorsTo, valuesOf]
  cases store.parent? id <;> rfl

theorem transGen_of_mem_ancestorsTo {limit : Nat} {above : NodeId}
    (member : above ∈ store.ancestorsTo limit id) : TransGen store.Up id above := by
  induction limit generalizing id with
  | zero => cases member
  | succ limit ih =>
      rw [ancestorsTo_succ_eq] at member
      split at member
      case h_1 => cases member
      case h_2 parent up =>
        rcases List.mem_cons.1 member with rfl | member
        · exact .single up
        · exact (ih member).head up

theorem pairwise_ancestorsTo (store : NodeStore) (limit : Nat) (id : NodeId) :
    (store.ancestorsTo limit id).Pairwise (TransGen store.Up) := by
  induction limit generalizing id with
  | zero => exact .nil
  | succ limit ih =>
      rw [ancestorsTo_succ_eq]
      split
      · exact .nil
      · exact .cons (fun _ member => transGen_of_mem_ancestorsTo member) (ih _)

/-- A walk up that ends before its limit does not go on beyond it. -/
private theorem ancestorsTo_succ {limit : Nat}
    (ends : (store.ancestorsTo limit id).length < limit) :
    store.ancestorsTo (limit + 1) id = store.ancestorsTo limit id := by
  induction limit generalizing id with
  | zero => cases ends
  | succ limit ih =>
      rw [ancestorsTo_succ_eq, ancestorsTo_succ_eq]
      rw [ancestorsTo_succ_eq] at ends
      split
      · rfl
      · rename_i parent up
        rw [up] at ends
        rw [ih (Nat.lt_of_succ_lt_succ ends)]

/-- A node without a parent has no ancestors. -/
theorem ancestors_of_detached (detached : store.parent? id = none) : store.ancestors id = [] := by
  rw [ancestors, detached]
  cases store.size <;> rfl

namespace WellFormed

private theorem length_ancestorsTo_lt (wellFormed : store.WellFormed) (used : id < store.size)
    (limit : Nat) : (store.ancestorsTo limit id).length < store.size := by
  have distinct : (id :: store.ancestorsTo limit id).Nodup := by
    refine List.nodup_cons.2 ⟨fun member => ?_, ?_⟩
    · exact wellFormed.acyclic id (transGen_of_mem_ancestorsTo member)
    · refine (store.pairwise_ancestorsTo limit id).imp ?_
      rintro below _ way rfl
      exact wellFormed.acyclic below way
  have inRange : id :: store.ancestorsTo limit id ⊆ List.range store.size := by
    intro other member
    rw [List.mem_range]
    rcases List.mem_cons.1 member with rfl | member
    · exact used
    · rcases transGen_of_mem_ancestorsTo member with step | ⟨-, step⟩ <;>
        exact wellFormed.parentInRange _ _ step
  have fits := (List.subperm_of_subset distinct inRange).length_le
  rwa [List.length_cons, List.length_range] at fits

theorem length_ancestors_lt (wellFormed : store.WellFormed) (used : id < store.size) :
    (store.ancestors id).length < store.size :=
  wellFormed.length_ancestorsTo_lt used store.size

/-- The ancestors of a node are its parent and the ancestors of this. -/
theorem ancestors_eq (wellFormed : store.WellFormed) (linked : store.parent? id = some parent) :
    store.ancestors id = parent :: store.ancestors parent := by
  have ends := wellFormed.length_ancestorsTo_lt (lt_size_of_parent? linked) store.size
  rw [ancestors, ← ancestorsTo, ← ancestorsTo_succ ends, ancestorsTo_succ_eq, linked]
  rfl

/-- What holds at the nodes without a parent, and at a node if it holds at its parent, holds at all
nodes. -/
theorem upInduction (wellFormed : store.WellFormed) {motive : NodeId → Prop}
    (detached : ∀ id, store.parent? id = none → motive id)
    (linked : ∀ id parent, store.parent? id = some parent → motive parent → motive id)
    (id : NodeId) : motive id := by
  induction all : store.ancestors id generalizing id with
  | nil =>
      cases up : store.parent? id with
      | none => exact detached id up
      | some parent => rw [wellFormed.ancestors_eq up] at all; cases all
  | cons first others ih =>
      cases up : store.parent? id with
      | none => exact detached id up
      | some parent =>
          rw [wellFormed.ancestors_eq up] at all
          cases all
          exact linked id _ up (ih _ rfl)

/-- The ancestors of a node are the nodes that parent links lead to. -/
theorem mem_ancestors_iff (wellFormed : store.WellFormed) {above : NodeId} :
    above ∈ store.ancestors id ↔ TransGen store.Up id above := by
  refine ⟨transGen_of_mem_ancestorsTo, fun way => ?_⟩
  induction way using TransGen.head_induction_on with
  | single step => rw [wellFormed.ancestors_eq step]; exact List.mem_cons_self
  | head step _ ih => rw [wellFormed.ancestors_eq step]; exact List.mem_cons_of_mem _ ih

/-! ## Branches -/

/-- What holds at the nodes without children, and one level further down from a node if it holds
down from its children, holds wherever there are no more levels than nodes. -/
theorem levelInduction (wellFormed : store.WellFormed) {motive : Nat → NodeId → Prop}
    (leaf : ∀ id, store.children id = [] → motive 0 id)
    (node : ∀ depth id, (∀ child ∈ store.children id, motive depth child) →
      motive (depth + 1) id) {depth : Nat}
    (deep : store.size ≤ (store.ancestors id).length + depth + 1) : motive depth id := by
  have levels : ∀ id, ∀ child ∈ store.children id, child < store.size ∧
      (store.ancestors child).length = (store.ancestors id).length + 1 := by
    intro id child member
    rw [wellFormed.ancestors_eq ((wellFormed.linked id child).1 member)]
    exact ⟨wellFormed.childInRange id child member, rfl⟩
  induction depth generalizing id with
  | zero =>
      refine leaf id (List.eq_nil_iff_forall_not_mem.2 fun child member => ?_)
      rcases levels id child member with ⟨used, level⟩
      have short := wellFormed.length_ancestors_lt used
      omega
  | succ depth ih =>
      refine node depth id fun child member => ih ?_
      have level := (levels id child member).2
      omega

/-- What holds at a node if it holds at its children holds at all nodes. -/
theorem downInduction (wellFormed : store.WellFormed) {motive : NodeId → Prop}
    (node : ∀ id, (∀ child ∈ store.children id, motive child) → motive id) (id : NodeId) :
    motive id := by
  have deep : store.size ≤ (store.ancestors id).length + store.size + 1 :=
    Nat.le_succ_of_le (Nat.le_add_left _ _)
  refine wellFormed.levelInduction (motive := fun _ => motive)
    (fun id leaf => node id fun child member => ?_) (fun _ => node) deep
  rw [leaf] at member
  cases member

/-- A walk down from a node does not use more levels than the store has nodes, less those
above the node. -/
private theorem branchTo_succ (wellFormed : store.WellFormed) {depth : Nat}
    (deep : store.size ≤ (store.ancestors id).length + depth + 1) :
    store.branchTo (depth + 1) id = store.branchTo depth id := by
  refine wellFormed.levelInduction (motive := fun depth id =>
    store.branchTo (depth + 1) id = store.branchTo depth id) ?_ ?_ deep
  · intro id leaf
    rw [branchTo, branchTo, leaf]
    rfl
  · intro depth id below
    rw [branchTo, List.map_congr_left below]
    rfl

theorem branchTo_of_size_le (wellFormed : store.WellFormed) {depth : Nat}
    (deep : store.size ≤ depth) (id : NodeId) : store.branchTo depth id = store.branch id := by
  induction deep with
  | refl => rfl
  | @step depth deep ih =>
      have bound : store.size ≤ (store.ancestors id).length + depth + 1 :=
        Nat.le_succ_of_le (Nat.le_add_left_of_le deep)
      rw [wellFormed.branchTo_succ bound, ih]

/-- The branch of a node is its label over the branches of its children. -/
theorem branch_eq (wellFormed : store.WellFormed) (id : NodeId) :
    store.branch id = .mk (store.label id) ((store.children id).map store.branch) := by
  rw [← wellFormed.branchTo_of_size_le (Nat.le_succ store.size), branchTo]
  rfl

/-- Down to any depth a branch stays while the labels and the child lists in it do. -/
theorem branchTo_congr (wellFormed : before.WellFormed)
    (same : ∀ inner, before.Below inner id →
      after.label inner = before.label inner ∧ after.children inner = before.children inner)
    (depth : Nat) : after.branchTo depth id = before.branchTo depth id := by
  induction depth generalizing id with
  | zero => rw [branchTo, branchTo, (same id .refl).1]
  | succ depth ih =>
      rw [branchTo, branchTo, (same id .refl).1, (same id .refl).2]
      congr 1
      refine List.map_congr_left fun child member => ih fun inner below => ?_
      exact same inner (below.tail ((wellFormed.linked id child).1 member))

/-- A branch stays while the labels and the child lists in it do. -/
theorem branch_congr (wellFormed : before.WellFormed) (grows : before.size ≤ after.size)
    (same : ∀ inner, before.Below inner id →
      after.label inner = before.label inner ∧ after.children inner = before.children inner) :
    after.branch id = before.branch id := by
  rw [branch, wellFormed.branchTo_congr same, wellFormed.branchTo_of_size_le grows]

/-- Other children for a parent do not change what is below nodes that are not above it. -/
theorem branch_setChildren_of_not_below (wellFormed : store.WellFormed)
    (used : parent < store.size) (apart : ¬ store.Below parent id) :
    (store.setChildren parent children).branch id = store.branch id := by
  refine wellFormed.branch_congr (Nat.le_of_eq (size_setChildren ..).symm) fun inner below =>
    ⟨label_setChildren .., ?_⟩
  rw [children_setChildren used, if_neg]
  rintro rfl
  exact apart below

/-- A parent has below it what its new children had below them. -/
theorem branch_setChildren_self (wellFormed : store.WellFormed)
    (adopts : store.Adopts parent children) :
    (store.setChildren parent children).branch parent =
      .mk (store.label parent) (children.map store.branch) := by
  rw [(wellFormed.setChildren adopts).branch_eq, label_setChildren,
    children_setChildren adopts.parentInRange, if_pos rfl]
  exact congrArg (Branch.mk _) (List.map_congr_left fun child member =>
    wellFormed.branch_setChildren_of_not_below adopts.parentInRange (adopts.apart child member))

end WellFormed

end NodeStore

end TemplateFill
