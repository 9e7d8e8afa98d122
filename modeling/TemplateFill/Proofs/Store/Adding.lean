import TemplateFill.Proofs.Store.Branch
import TemplateFill.Store.Pass

/-!
# Nodes that are added

A store grows by nodes that are detached at first and then get their places below other new
nodes.  What was there stays as it is, and what is below the new nodes is told by the order in
which they are linked.
-/

namespace TemplateFill

open Relation

theorem Branch.mk_label_children (branch : Branch) : mk branch.label branch.children = branch := by
  cases branch
  rfl

namespace NodeStore

variable {store origin before after : NodeStore} {id top child : NodeId}
  {tops added children rest : List NodeId}

/-! ## Stores with the same links -/

theorem WellFormed.congr (wellFormed : before.WellFormed)
    (parents : ∀ id, after.parent? id = before.parent? id)
    (lists : ∀ id, after.children id = before.children id) : after.WellFormed := by
  have ups : after.Up = before.Up := by
    funext child parent
    rw [Up, Up, parents]
  refine wellFormed_of_linked (fun parent => ?_) (fun parent child => ?_) fun id => ?_
  · rw [lists]
    exact wellFormed.nodup parent
  · rw [lists, parents]
    exact wellFormed.linked parent child
  · rw [ups]
    exact wellFormed.acyclic id

theorem wellFormed_empty : empty.WellFormed := by
  have unlinked : ∀ id, empty.slot id = default := fun id => slot_of_size_le (Nat.zero_le id)
  refine wellFormed_of_linked (fun parent => ?_) (fun parent child => ?_) fun id circle => ?_
  · rw [NodeStore.children, unlinked]
    exact .nil
  · rw [NodeStore.children, parent?, unlinked, unlinked]
    simp [default, instInhabitedSlot.default]
  · rcases circle with step | ⟨-, step⟩ <;>
    · rw [Up, parent?, unlinked] at step
      cases step

theorem slot_alloc (store : NodeStore) (label : Label) (id : NodeId) :
    (store.alloc label).1.slot id =
      if id = store.size then ⟨label, none, []⟩ else store.slot id := by
  by_cases fresh : id = store.slots.size <;>
    simp [alloc, slot, size, Array.getElem?_push, fresh]

theorem label_alloc (store : NodeStore) (label : Label) :
    (store.alloc label).1.label store.size = label := by
  rw [NodeStore.label, slot_alloc, if_pos rfl]

@[simp] theorem parent?_alloc (store : NodeStore) (label : Label) (id : NodeId) :
    (store.alloc label).1.parent? id = store.parent? id := by
  rw [parent?, slot_alloc, parent?]
  split
  case isTrue fresh => rw [slot_of_size_le (Nat.le_of_eq fresh.symm)]; rfl
  case isFalse => rfl

@[simp] theorem children_alloc (store : NodeStore) (label : Label) (id : NodeId) :
    (store.alloc label).1.children id = store.children id := by
  rw [NodeStore.children, slot_alloc, NodeStore.children]
  split
  case isTrue fresh => rw [slot_of_size_le (Nat.le_of_eq fresh.symm)]; rfl
  case isFalse => rfl

/-! ## Growing -/

/-- A store has grown by nodes, of which `tops` are still detached; the nodes from before are
as they were. -/
structure Adds (before after : NodeStore) (tops : List NodeId) : Prop where
  wellFormed : after.WellFormed
  grows : before.size ≤ after.size
  kept : ∀ id < before.size, after.slot id = before.slot id
  root_eq : after.root = before.root
  nodup : tops.Nodup
  fresh : ∀ id ∈ tops, before.size ≤ id
  inRange : ∀ id ∈ tops, id < after.size
  detached : ∀ id ∈ tops, after.parent? id = none

namespace Adds

theorem refl (wellFormed : store.WellFormed) : Adds store store [] :=
  ⟨wellFormed, Nat.le_refl _, fun _ _ => rfl, rfl, .nil, nofun, nofun, nofun⟩

theorem alloc (wellFormed : store.WellFormed) (label : Label) :
    Adds store (store.alloc label).1 [(store.alloc label).2] where
  wellFormed := wellFormed.congr (parent?_alloc store label) (children_alloc store label)
  grows := by simp
  kept id used := by rw [slot_alloc, if_neg (Nat.ne_of_lt used)]
  root_eq := rfl
  nodup := by simp
  fresh id member := by rw [List.mem_singleton.1 member]; exact Nat.le_refl _
  inRange id member := by
    rw [List.mem_singleton.1 member, size_alloc]
    exact Nat.lt_succ_self _
  detached id member := by
    rw [List.mem_singleton.1 member, parent?_alloc]
    exact congrArg Slot.parent (slot_of_size_le (Nat.le_refl _))

theorem trans {tops' : List NodeId} (first : Adds origin before tops)
    (second : Adds before after tops') : Adds origin after (tops ++ tops') where
  wellFormed := second.wellFormed
  grows := Nat.le_trans first.grows second.grows
  kept id used := (second.kept id (Nat.lt_of_lt_of_le used first.grows)).trans (first.kept id used)
  root_eq := second.root_eq.trans first.root_eq
  nodup := by
    refine List.nodup_append.2 ⟨first.nodup, second.nodup, ?_⟩
    rintro id member _ member' rfl
    exact absurd (first.inRange id member) (Nat.not_lt_of_le (second.fresh id member'))
  fresh id member := by
    rcases List.mem_append.1 member with member | member
    · exact first.fresh id member
    · exact Nat.le_trans first.grows (second.fresh id member)
  inRange id member := by
    rcases List.mem_append.1 member with member | member
    · exact Nat.lt_of_lt_of_le (first.inRange id member) second.grows
    · exact second.inRange id member
  detached id member := by
    rcases List.mem_append.1 member with member | member
    · rw [parent?, second.kept id (first.inRange id member)]
      exact first.detached id member
    · exact second.detached id member

theorem perm {tops' : List NodeId} (adds : Adds before after tops) (perm : tops.Perm tops') :
    Adds before after tops' :=
  { adds with
    nodup := perm.nodup adds.nodup
    fresh := fun id member => adds.fresh id (perm.mem_iff.2 member)
    inRange := fun id member => adds.inRange id (perm.mem_iff.2 member)
    detached := fun id member => adds.detached id (perm.mem_iff.2 member) }

/-- A new node can take other new nodes as children, behind those it has. -/
theorem adopts (adds : Adds origin store (top :: (added ++ rest))) :
    store.Adopts top (store.children top ++ added) := by
  have isAdded : ∀ child ∈ added, child ∈ top :: (added ++ rest) := fun child member =>
    List.mem_cons_of_mem _ (List.mem_append_left _ member)
  rcases List.nodup_cons.1 adds.nodup with ⟨notAmong, distinct⟩
  refine adds.wellFormed.adopts (adds.inRange top List.mem_cons_self) ?_ fun child member => ?_
  · refine List.nodup_append.2 ⟨adds.wellFormed.nodup top, (List.nodup_append.1 distinct).1, ?_⟩
    rintro child member _ member' rfl
    have up := (adds.wellFormed.linked top child).1 member
    rw [adds.detached child (isAdded child member')] at up
    cases up
  · rcases List.mem_append.1 member with member | member
    · exact .inl member
    · refine .inr ⟨adds.inRange child (isAdded child member),
        adds.detached child (isAdded child member), fun below => ?_⟩
      cases eq_of_below (adds.detached top List.mem_cons_self) below
      exact notAmong (List.mem_append_left _ member)

/-- When it has taken them, the others are still new. -/
theorem adopt (adds : Adds origin store (top :: (added ++ rest))) :
    Adds origin (store.setChildren top (store.children top ++ added)) (top :: rest) := by
  have adopts := adds.adopts
  have isAdded : ∀ child ∈ added, child ∈ top :: (added ++ rest) := fun child member =>
    List.mem_cons_of_mem _ (List.mem_append_left _ member)
  have isRest : ∀ id ∈ top :: rest, id ∈ top :: (added ++ rest) := fun id member =>
    (List.mem_cons.1 member).elim (fun same => same ▸ List.mem_cons_self) fun member =>
      List.mem_cons_of_mem _ (List.mem_append_right _ member)
  rcases List.nodup_cons.1 adds.nodup with ⟨notAmong, distinct⟩
  rcases List.nodup_append.1 distinct with ⟨-, distinctRest, apart⟩
  have linked := adds.wellFormed.linked top
  have parents : ∀ id, (store.setChildren top (store.children top ++ added)).parent? id =
      if id ∈ added then some top else store.parent? id := by
    intro id
    have linked := linked id
    rw [adds.wellFormed.parent?_setChildren adopts.inRange]
    grind
  have notAdded : ∀ id ∈ top :: rest, id ∉ added := by
    intro id member member'
    rcases List.mem_cons.1 member with rfl | member
    · exact notAmong (List.mem_append_left _ member')
    · exact apart id member' id member rfl
  constructor
  case wellFormed => exact adds.wellFormed.setChildren adopts
  case grows => rw [size_setChildren]; exact adds.grows
  case kept =>
    intro id used
    have old : ∀ inner ∈ top :: (added ++ rest), id ≠ inner := by
      rintro _ member rfl
      exact absurd used (Nat.not_lt_of_le (adds.fresh id member))
    rw [← adds.kept id used]
    refine Slot.eq_of_links (label_setChildren ..) ?_ ?_
    · exact (parents id).trans (if_neg fun member => old id (isAdded id member) rfl)
    · exact (children_setChildren adopts.parentInRange _ id).trans
        (if_neg (old top List.mem_cons_self))
  case root_eq => rw [root_setChildren, adds.root_eq]
  case nodup =>
    exact List.nodup_cons.2 ⟨fun member => notAmong (List.mem_append_right _ member), distinctRest⟩
  case fresh => exact fun id member => adds.fresh id (isRest id member)
  case inRange =>
    intro id member
    rw [size_setChildren]
    exact adds.inRange id (isRest id member)
  case detached =>
    intro id member
    rw [parents, if_neg (notAdded id member), adds.detached id (isRest id member)]

theorem append (adds : Adds origin store (top :: child :: rest)) :
    Adds origin (store.append top child) (top :: rest) := by
  rw [adds.wellFormed.append_eq (adds.inRange top List.mem_cons_self)
    (adds.inRange child (List.mem_cons_of_mem _ List.mem_cons_self))]
  have adds : Adds origin store (top :: ([child] ++ rest)) := adds
  exact adds.adopt

/-- What is below the nodes from before stays. -/
theorem branch_eq (adds : Adds before after tops) (wellFormed : before.WellFormed)
    (used : id < before.size) : after.branch id = before.branch id := by
  refine wellFormed.branch_congr adds.grows fun inner below => ?_
  have kept := adds.kept inner (lt_size_of_below used below)
  exact ⟨congrArg Slot.label kept, congrArg Slot.children kept⟩

theorem map_branch_eq (adds : Adds before after tops) (wellFormed : before.WellFormed)
    {ids : List NodeId} (used : ∀ id ∈ ids, id < before.size) :
    ids.map after.branch = ids.map before.branch :=
  List.map_congr_left fun id member => adds.branch_eq wellFormed (used id member)

/-- What is below the nodes of two steps, after the second one. -/
theorem map_branch_append {tops' : List NodeId} (first : Adds origin before tops)
    (second : Adds before after tops') :
    (tops ++ tops').map after.branch = tops.map before.branch ++ tops'.map after.branch := by
  rw [List.map_append, second.map_branch_eq first.wellFormed first.inRange]

end Adds

/-- What is below a new node after it has taken other new nodes as children. -/
theorem Adds.branch_adopt (adds : Adds origin store (top :: (added ++ rest))) :
    (store.setChildren top (store.children top ++ added)).branch top =
      .mk (store.label top) ((store.children top ++ added).map store.branch) :=
  adds.wellFormed.branch_setChildren_self adds.adopts

/-- A new node has gained what is below the node that has been appended to it. -/
theorem Adds.branch_append (adds : Adds origin store (top :: child :: rest)) :
    (store.append top child).branch top =
      .mk (store.branch top).label ((store.branch top).children ++ [store.branch child]) := by
  have adds' : Adds origin store (top :: ([child] ++ rest)) := adds
  rw [adds.wellFormed.append_eq (adds.inRange top List.mem_cons_self)
    (adds.inRange child (List.mem_cons_of_mem _ List.mem_cons_self)), adds'.branch_adopt,
    adds.wellFormed.branch_eq top, List.map_append]
  rfl

/-! ## Copies -/

theorem children_size (store : NodeStore) : store.children store.size = [] :=
  congrArg Slot.children (slot_of_size_le (Nat.le_refl _))

theorem children_alloc_self (store : NodeStore) (label : Label) :
    (store.alloc label).1.children (store.alloc label).2 = [] :=
  (children_alloc ..).trans store.children_size

theorem branch_alloc (wellFormed : store.WellFormed) (label : Label) :
    (store.alloc label).1.branch (store.alloc label).2 = .mk label [] := by
  rw [(Adds.alloc wellFormed label).wellFormed.branch_eq, children_alloc_self]
  exact congrArg (Branch.mk · []) (label_alloc store label)

mutual

/-- A branch is added detached, and is what is then below its top. -/
theorem adds_graft : ∀ (branch : Branch) {store : NodeStore}, store.WellFormed →
    Adds store (store.graft branch).1 [(store.graft branch).2] ∧
      (store.graft branch).1.branch (store.graft branch).2 = branch
  | .mk label children, store, wellFormed => by
      have below := adds_graftBelow children (Adds.alloc wellFormed label)
      rw [branch_alloc wellFormed] at below
      rw [graft]
      exact below

/-- Branches are added as the last children of a detached node. -/
theorem adds_graftBelow : ∀ (branches : List Branch) {origin store : NodeStore} {top : NodeId},
    Adds origin store [top] → Adds origin (store.graftBelow top branches) [top] ∧
      (store.graftBelow top branches).branch top =
        .mk (store.branch top).label ((store.branch top).children ++ branches)
  | [], origin, store, top, adds => by
      rw [graftBelow, List.append_nil]
      exact ⟨adds, (Branch.mk_label_children _).symm⟩
  | branch :: rest, origin, store, top, adds => by
      rcases adds_graft branch adds.wellFormed with ⟨grown, first⟩
      have both : Adds origin (store.graft branch).1 [top, (store.graft branch).2] :=
        adds.trans grown
      rcases adds_graftBelow rest both.append with ⟨adds', below⟩
      refine ⟨adds', below.trans ?_⟩
      rw [both.branch_append, first,
        grown.branch_eq adds.wellFormed (adds.inRange top List.mem_cons_self)]
      simp [Branch.label, Branch.children]

end

/-- Branches are added side by side. -/
theorem adds_graftAll : ∀ (branches : List Branch) {store : NodeStore}, store.WellFormed →
    Adds store (store.graftAll branches).1 (store.graftAll branches).2 ∧
      (store.graftAll branches).2.map (store.graftAll branches).1.branch = branches
  | [], store, wellFormed => ⟨.refl wellFormed, rfl⟩
  | branch :: rest, store, wellFormed => by
      rcases adds_graft branch wellFormed with ⟨first, top⟩
      rcases adds_graftAll rest first.wellFormed with ⟨others, tops⟩
      rw [graftAll]
      refine ⟨first.trans others, ?_⟩
      rw [List.map_cons, tops, others.branch_eq first.wellFormed
        (first.inRange _ List.mem_cons_self), top]

/-! ## New nodes over new nodes -/

section Over

variable {label : Label}

/-- A node is added, others after it, and these become its children. -/
theorem Adds.fill (wellFormed : store.WellFormed)
    (below : Adds (store.alloc label).1 after children) :
    Adds store (after.setChildren (store.alloc label).2 children) [(store.alloc label).2] ∧
      (after.setChildren (store.alloc label).2 children).branch (store.alloc label).2 =
        .mk label (children.map after.branch) := by
  have alloc := Adds.alloc wellFormed label
  have adds : Adds store after ((store.alloc label).2 :: (children ++ [])) := by
    rw [List.append_nil]
    exact alloc.trans below
  have kept := below.branch_eq alloc.wellFormed (alloc.inRange _ List.mem_cons_self)
  rw [branch_alloc wellFormed, adds.wellFormed.branch_eq, Branch.mk.injEq,
    List.map_eq_nil_iff] at kept
  have linked := adds.adopt
  have top := adds.branch_adopt
  rw [kept.2, List.nil_append] at linked top
  exact ⟨linked, top.trans (congrArg (Branch.mk · _) kept.1)⟩

/-- A node is added over nodes that are new. -/
theorem Adds.addOver (adds : Adds origin store (children ++ rest)) (label : Label) :
    Adds origin (store.addOver label children).1 ((store.addOver label children).2 :: rest) ∧
      (store.addOver label children).1.branch (store.addOver label children).2 =
        .mk label (children.map store.branch) := by
  have alloc := Adds.alloc adds.wellFormed label
  have grown : Adds origin (store.alloc label).1
      ((store.alloc label).2 :: (children ++ rest)) :=
    (adds.trans alloc).perm (List.perm_append_singleton _ _)
  have linked := grown.adopt
  have top := grown.branch_adopt
  have kept : children.map (store.alloc label).1.branch = children.map store.branch :=
    alloc.map_branch_eq adds.wellFormed fun id member =>
      adds.inRange id (List.mem_append_left _ member)
  rw [children_alloc_self, List.nil_append] at linked top
  rw [kept] at top
  exact ⟨linked, top.trans (congrArg (Branch.mk · _) (label_alloc store label))⟩

/-- What is below the nodes from before stays when a node is added over some of them. -/
theorem WellFormed.branch_addOver (wellFormed : store.WellFormed) (used : id < store.size) :
    (store.addOver label children).1.branch id = store.branch id := by
  have alloc := Adds.alloc wellFormed label
  have apart : ¬ (store.alloc label).1.Below (store.alloc label).2 id := fun below =>
    Nat.ne_of_gt used (eq_of_below (alloc.detached _ List.mem_cons_self) below)
  rw [NodeStore.addOver, alloc.wellFormed.branch_setChildren_of_not_below
    (alloc.inRange _ List.mem_cons_self) apart, alloc.branch_eq wellFormed used]

/-- A node is added around one that is new. -/
theorem Adds.addAround (adds : Adds origin store (child :: rest)) (label : Label) :
    Adds origin (store.addAround label child).1 ((store.addAround label child).2 :: rest) ∧
      (store.addAround label child).1.branch (store.addAround label child).2 =
        .mk label [store.branch child] := by
  have alloc := Adds.alloc adds.wellFormed label
  have inRange := adds.inRange child List.mem_cons_self
  have same : store.addAround label child = store.addOver label [child] := by
    rw [NodeStore.addAround, NodeStore.addOver, alloc.wellFormed.append_eq
      (alloc.inRange _ List.mem_cons_self) (Nat.lt_of_lt_of_le inRange alloc.grows),
      children_alloc_self]
    rfl
  have built : Adds origin store ([child] ++ rest) := adds
  rw [same]
  exact built.addOver label

end Over

end NodeStore

end TemplateFill
