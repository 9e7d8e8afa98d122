import TemplateFill.Proofs.Store.Traversal
import TemplateFill.Store.Copy

/-!
# Copies within and between stores

Copying goes down a subtree while the store grows, and within one store it reads what is to be
copied from the very store that grows.  The nodes from before stay as they are, so the copy is what
adding the branch of the node gives: detached, with the same outline, and with consecutive ids in
preorder.
-/

namespace TemplateFill

open Relation

namespace NodeStore

variable {store source before after origin : NodeStore} {id top child : NodeId}
  {ids tops rest : List NodeId} {depth : Nat}

/-! ## Copying adds a branch -/

/-- Putting copies below a node one after the other adds the branches that they are copies of. -/
private theorem foldl_append_eq {copy : NodeStore → NodeId → NodeStore × NodeId}
    {branch : NodeId → Branch} (keeps : NodeStore → Prop)
    (copies : ∀ id ∈ ids, ∀ store, keeps store → copy store id = store.graft (branch id))
    (kept : ∀ store branch, keeps store →
      keeps ((store.graft branch).1.append top (store.graft branch).2)) (holds : keeps store) :
    ids.foldl (fun store id => (copy store id).1.append top (copy store id).2) store =
      store.graftBelow top (ids.map branch) := by
  induction ids generalizing store with
  | nil => rfl
  | cons id ids ih =>
      rw [List.forall_mem_cons] at copies
      rw [List.foldl_cons, copies.1 store holds, ih copies.2 (kept store _ holds), List.map_cons,
        graftBelow]

theorem importTo_eq (source : NodeStore) (depth : Nat) (store : NodeStore) (id : NodeId) :
    source.importTo depth store id = store.graft (source.branchTo depth id) := by
  induction depth generalizing store id with
  | zero => rfl
  | succ depth ih =>
      rw [importTo, branchTo, graft]
      exact congrArg (·, _) (foldl_append_eq (fun _ => True)
        (fun child _ store _ => ih store child) (fun _ _ _ => trivial) trivial)

/-- Importing a node adds its branch. -/
theorem importFrom_eq (store source : NodeStore) (id : NodeId) :
    store.importFrom source id = store.graft (source.branch id) :=
  importTo_eq source source.size store id

/-- What is at and below a node from before stays, down to any depth. -/
theorem Adds.branchTo_eq (adds : Adds before after tops) (wellFormed : before.WellFormed)
    (used : id < before.size) : after.branchTo depth id = before.branchTo depth id := by
  refine wellFormed.branchTo_congr (fun inner below => ?_) depth
  have kept := adds.kept inner (lt_size_of_below used below)
  exact ⟨congrArg Slot.label kept, congrArg Slot.children kept⟩

/-- A branch that is added to a store with a detached new node can be put below this node. -/
theorem Adds.append_graft (adds : Adds origin store [top]) (branch : Branch) :
    Adds origin ((store.graft branch).1.append top (store.graft branch).2) [top] := by
  have both : Adds origin (store.graft branch).1 ([top] ++ [(store.graft branch).2]) :=
    adds.trans (adds_graft branch adds.wellFormed).1
  exact both.append

namespace WellFormed

theorem duplicateTo_eq (wellFormed : store.WellFormed) (depth : Nat) (id : NodeId) :
    duplicateTo depth store id = store.graft (store.branchTo depth id) := by
  induction depth generalizing store id with
  | zero => rfl
  | succ depth ih =>
      have alloc := Adds.alloc wellFormed (store.label id)
      rw [duplicateTo, branchTo, graft, children_alloc]
      -- The children that are still to be copied are as they were, whatever has been added.
      refine congrArg (·, _) (foldl_append_eq
        (fun grown => Adds store grown [(store.alloc (store.label id)).2])
        (fun child member grown adds => ?_) (fun grown branch adds => adds.append_graft branch)
        alloc)
      rw [ih adds.wellFormed child,
        adds.branchTo_eq wellFormed (wellFormed.childInRange id child member)]

/-- Duplicating a node adds the branch that it had before. -/
theorem duplicate_eq (wellFormed : store.WellFormed) (id : NodeId) :
    store.duplicate id = store.graft (store.branch id) :=
  wellFormed.duplicateTo_eq store.size id

/-! ## Ids in preorder -/

/-- What is listed for a node is the same if the children of the nodes there are. -/
theorem descendants_congr (wellFormed : before.WellFormed) (wellFormed' : after.WellFormed)
    (same : ∀ inner, before.Below inner id → after.children inner = before.children inner) :
    after.descendants id = before.descendants id := by
  induction id using wellFormed.downInduction with
  | node id ih =>
      rw [wellFormed'.preorder_descendants, wellFormed.preorder_descendants, same id .refl]
      refine List.flatMap_congr fun child member => ?_
      rw [ih child member fun inner below =>
        same inner (below.tail ((wellFormed.linked id child).1 member))]

end WellFormed

theorem Adds.descendants_eq (adds : Adds before after tops) (wellFormed : before.WellFormed)
    (used : id < before.size) : after.descendants id = before.descendants id :=
  wellFormed.descendants_congr adds.wellFormed fun inner below =>
    congrArg Slot.children (adds.kept inner (lt_size_of_below used below))

/-- A new node has the node that has been appended to it at the end of what is below it. -/
theorem Adds.descendants_append (adds : Adds origin store (top :: child :: rest)) :
    (store.append top child).descendants top =
      store.descendants top ++ child :: store.descendants child := by
  have adopting : Adds origin store (top :: ([child] ++ rest)) := adds
  have adopts := adopting.adopts
  have wellFormed := adds.wellFormed
  have appended : (store.append top child).WellFormed := adds.append.wellFormed
  have set := wellFormed.append_eq (adds.inRange top List.mem_cons_self)
    (adds.inRange child (List.mem_cons_of_mem _ List.mem_cons_self))
  have apart : ∀ inner ∈ store.children top ++ [child],
      (store.append top child).descendants inner = store.descendants inner := by
    refine fun inner member => wellFormed.descendants_congr appended fun id below => ?_
    rw [set, children_setChildren adopts.parentInRange, if_neg]
    rintro rfl
    exact adopts.apart inner member below
  have lists : (store.append top child).children top = store.children top ++ [child] := by
    rw [set, children_setChildren adopts.parentInRange, if_pos rfl]
  rw [appended.preorder_descendants, lists, wellFormed.preorder_descendants,
    List.flatMap_congr fun inner member => by rw [apart inner member], List.flatMap_append]
  simp

theorem descendants_alloc (wellFormed : store.WellFormed) (label : Label) :
    (store.alloc label).1.descendants store.size = [] := by
  rw [(Adds.alloc wellFormed label).wellFormed.preorder_descendants, children_alloc,
    children_size]
  rfl

private theorem range'_between {first middle last : Nat} (grows : first < middle)
    (grows' : middle ≤ last) :
    first :: List.range' (first + 1) (middle - (first + 1)) ++
        List.range' middle (last - middle) = List.range' first (last - first) := by
  obtain ⟨inside, rfl⟩ := Nat.exists_eq_add_of_le grows
  obtain ⟨behind, rfl⟩ := Nat.exists_eq_add_of_le grows'
  have middle : first.succ + inside = first + (inside + 1) := by omega
  rw [Nat.add_sub_cancel_left, Nat.add_sub_cancel_left, ← List.range'_succ, middle,
    List.range'_append_1]
  congr 1
  omega

mutual

/-- The nodes of a branch that is added get the next ids in preorder. -/
theorem ids_graft : ∀ (branch : Branch) {store : NodeStore}, store.WellFormed →
    store.size < (store.graft branch).1.size ∧ (store.graft branch).2 = store.size ∧
      (store.graft branch).1.descendants store.size =
        List.range' (store.size + 1) ((store.graft branch).1.size - (store.size + 1))
  | .mk label children, store, wellFormed => by
      have below := ids_graftBelow children (Adds.alloc wellFormed label)
      rw [size_alloc] at below
      rw [graft]
      refine ⟨below.1, rfl, below.2.trans ?_⟩
      rw [show (store.alloc label).2 = store.size from rfl, descendants_alloc wellFormed]
      rfl

theorem ids_graftBelow : ∀ (branches : List Branch) {origin store : NodeStore} {top : NodeId},
    Adds origin store [top] → store.size ≤ (store.graftBelow top branches).size ∧
      (store.graftBelow top branches).descendants top = store.descendants top ++
        List.range' store.size ((store.graftBelow top branches).size - store.size)
  | [], origin, store, top, adds => by
      rw [graftBelow, Nat.sub_self]
      exact ⟨Nat.le_refl _, (List.append_nil _).symm⟩
  | branch :: rest, origin, store, top, adds => by
      rcases ids_graft branch adds.wellFormed with ⟨grows, first, inside⟩
      have grown := (adds_graft branch adds.wellFormed).1
      have both : Adds origin (store.graft branch).1 [top, (store.graft branch).2] :=
        adds.trans grown
      rcases ids_graftBelow rest both.append with ⟨grows', below⟩
      rw [size_append] at grows' below
      rw [graftBelow]
      refine ⟨by omega, below.trans ?_⟩
      rw [both.descendants_append, first, inside,
        grown.descendants_eq adds.wellFormed (adds.inRange top List.mem_cons_self),
        List.append_assoc]
      rw [first] at grows'
      exact congrArg _ (range'_between grows grows')

end

/-! ## Exact copies -/

/-- The labels on the walk down from a node are those of its outline. -/
theorem WellFormed.map_label_descendants (wellFormed : store.WellFormed) (depth : Nat)
    (id : NodeId) :
    (id :: store.descendants id).map store.label =
      ((store.branch id).outlineFrom depth).map (·.2) := by
  induction id using wellFormed.downInduction generalizing depth with
  | node id each =>
      have below : ∀ {ids : List NodeId}, (∀ child ∈ ids, child ∈ store.children id) →
          (ids.flatMap fun child => child :: store.descendants child).map store.label =
            (Branch.outlineOfAll (depth + 1) (ids.map store.branch)).map (·.2) := by
        intro ids
        induction ids with
        | nil => exact fun _ => rfl
        | cons child ids ih =>
            intro members
            rw [List.forall_mem_cons] at members
            rw [List.flatMap_cons, List.map_append, each child members.1 (depth + 1), ih members.2,
              List.map_cons, Branch.outlineOfAll, List.map_append]
      rw [wellFormed.preorder_descendants, List.map_cons, below fun _ member => member,
        wellFormed.branch_eq, Branch.outlineFrom, List.map_cons]

/-- A node of a store that has grown is an exact copy of a node of `source`: it is detached, it has
the same outline below it, its nodes have the next ids in preorder, and the nodes from before have
their labels and their links. -/
structure IsCopy (source : NodeStore) (id : NodeId) (before : NodeStore)
    (result : NodeStore × NodeId) : Prop where
  wellFormed : result.1.WellFormed
  detached : result.1.parent? result.2 = none
  outline_eq : result.1.outline result.2 = source.outline id
  ids : result.2 :: result.1.descendants result.2 =
    List.range' before.size (result.1.size - before.size)
  labels : (result.2 :: result.1.descendants result.2).map result.1.label =
    (id :: source.descendants id).map source.label
  kept : ∀ other < before.size, result.1.slot other = before.slot other
  root_eq : result.1.root = before.root

/-- Adding the branch of a node makes an exact copy of it. -/
private theorem isCopy_graft (wellFormed : store.WellFormed) (source_wellFormed : source.WellFormed)
    (id : NodeId) : IsCopy source id store (store.graft (source.branch id)) := by
  rcases adds_graft (source.branch id) wellFormed with ⟨adds, branch⟩
  rcases ids_graft (source.branch id) wellFormed with ⟨grows, first, inside⟩
  have outlines : (store.graft (source.branch id)).1.outline (store.graft (source.branch id)).2 =
      source.outline id := congrArg Branch.outline branch
  constructor
  case wellFormed => exact adds.wellFormed
  case detached => exact adds.detached _ List.mem_cons_self
  case outline_eq => exact outlines
  case ids =>
    have all := range'_between grows (Nat.le_refl _)
    rw [Nat.sub_self, List.range'_zero, List.append_nil] at all
    rw [first, inside, all]
  case labels =>
    rw [adds.wellFormed.map_label_descendants 0, source_wellFormed.map_label_descendants 0, branch]
  case kept => exact adds.kept
  case root_eq => exact adds.root_eq

/-- Importing a node of another store and duplicating one of the same store, with or without a
parent, make exact copies.  A `NodeId` is not bounded: where ids have 32 bits this speaks of copies
that fit, after which the store still has at most `2 ^ 32` nodes. -/
theorem isCopy_of_copying :
    (∀ (store source : NodeStore) (id : NodeId), store.WellFormed → source.WellFormed →
      id < source.size → IsCopy source id store (store.importFrom source id)) ∧
    (∀ (store : NodeStore) (id : NodeId), store.WellFormed → id < store.size →
      IsCopy store id store (store.duplicate id)) := by
  constructor
  · intro store source id wellFormed source_wellFormed _
    rw [importFrom_eq]
    exact isCopy_graft wellFormed source_wellFormed id
  · intro store id wellFormed _
    rw [wellFormed.duplicate_eq]
    exact isCopy_graft wellFormed wellFormed id

/-- A run is copied to a store of nested texts, and within its own paragraph. -/
theorem isCopy_twoRuns :
    (nestedTexts.WellFormed ∧ twoRuns.WellFormed ∧ 1 < twoRuns.size ∧
      IsCopy twoRuns 1 nestedTexts (nestedTexts.importFrom twoRuns 1)) ∧
    twoRuns.parent? 1 = some 0 ∧ (twoRuns.duplicate 1).2 = 6 ∧
      IsCopy twoRuns 1 twoRuns (twoRuns.duplicate 1) := by
  rcases isCopy_of_copying with ⟨imported, duplicated⟩
  have inRange : 1 < twoRuns.size := by decide
  exact ⟨⟨wellFormed_nestedTexts, wellFormed_twoRuns, inRange,
      imported nestedTexts twoRuns 1 wellFormed_nestedTexts wellFormed_twoRuns inRange⟩,
    by decide, by decide, duplicated twoRuns 1 wellFormed_twoRuns inRange⟩

end NodeStore

end TemplateFill
