import TemplateFill.Proofs.Bookmark.Filling
import TemplateFill.Proofs.Bookmark.Slices
import TemplateFill.Proofs.Store.Documents

/-!
# Siblings that are regrouped

When siblings are regrouped in a store, each of them gets one new node.  Those of the paragraph
marks stand where the siblings stood, in the same order.  Those of the other siblings do as well,
or the paragraph of the next mark has taken them in.
-/

namespace TemplateFill

theorem Branch.kind_ne_of_inline {branch : Branch} (inline : branch.isBlockLevel = false) :
    branch.kind ≠ .paragraph := by
  intro paragraph
  rw [isBlockLevel, paragraph] at inline
  cases inline

namespace NodeStore

variable {store before middle after : NodeStore} {siblings others : List Branch}
  {made results made' results' tops : List NodeId} {place later : Nat}
  {rebuilds group : List Rebuild}

/-- Of the siblings from a place on, the first one that is block-level is a paragraph mark. -/
structure MarkComesNext (siblings : List Branch) (place later : Nat) : Prop where
  behind : place < later
  isMark : ∃ mark, siblings[later]? = some mark ∧ mark.kind = .paragraph
  inline : ∀ between sibling, place ≤ between → between < later →
    siblings[between]? = some sibling → sibling.isBlockLevel = false

/-- A store has grown by one node for each of some siblings, with the label of the sibling.  The
nodes of paragraph marks are among the results, which are in the order of the siblings; each of the
others is as well, or it is a child of the paragraph of the mark that comes next. -/
structure OneEach (before after : NodeStore) (siblings : List Branch)
    (made results : List NodeId) : Prop where
  isNew : ∀ id ∈ made, before.size ≤ id ∧ id < after.size
  distinct : made.Nodup
  labels : made.map after.label = siblings.map Branch.label
  inOrder : results.Sublist made
  marks : ∀ (place : Nat) (mark : Branch) (id : NodeId), siblings[place]? = some mark →
    made[place]? = some id → mark.kind = .paragraph → id ∈ results
  others : ∀ (place : Nat) (sibling : Branch) (id : NodeId), siblings[place]? = some sibling →
    made[place]? = some id → sibling.kind ≠ .paragraph → id ∈ results ∨
      ∃ later paragraph, MarkComesNext siblings place later ∧ made[later]? = some paragraph ∧
        id ∈ after.children paragraph

namespace MarkComesNext

theorem append_left (next : MarkComesNext siblings place later) (others : List Branch) :
    MarkComesNext (siblings ++ others) place later := by
  rcases next.isMark with ⟨mark, found, isMark⟩
  have inRange : later < siblings.length := (List.getElem?_eq_some_iff.1 found).1
  refine ⟨next.behind, ⟨mark, ?_, isMark⟩, fun between sibling from' upTo found => ?_⟩
  · rw [List.getElem?_append_left inRange, found]
  · rw [List.getElem?_append_left (Nat.lt_trans upTo inRange)] at found
    exact next.inline between sibling from' upTo found

theorem append_right (next : MarkComesNext siblings place later) (others : List Branch) :
    MarkComesNext (others ++ siblings) (others.length + place) (others.length + later) := by
  rcases next.isMark with ⟨mark, found, isMark⟩
  refine ⟨Nat.add_lt_add_left next.behind _, ⟨mark, ?_, isMark⟩, ?_⟩
  · rw [List.getElem?_append_right (Nat.le_add_right _ _), Nat.add_sub_cancel_left, found]
  · intro between sibling from' upTo found
    rw [List.getElem?_append_right (by omega)] at found
    exact next.inline (between - others.length) sibling (by omega) (by omega) found

end MarkComesNext

namespace OneEach

private theorem length_eq_of_labels (labels : made.map after.label = siblings.map Branch.label) :
    made.length = siblings.length := by
  have lengths := congrArg List.length labels
  rwa [List.length_map, List.length_map] at lengths

theorem length_eq (each : OneEach before after siblings made results) :
    made.length = siblings.length :=
  length_eq_of_labels each.labels

/-- Of two lists with a second one of the same lengths behind each, a place is in both first ones or
in both second ones. -/
private theorem getElem?_append_cases {sibling : Branch} {id : NodeId}
    (length : made.length = siblings.length)
    (found : (siblings ++ others)[place]? = some sibling)
    (isMade : (made ++ made')[place]? = some id) :
    siblings[place]? = some sibling ∧ made[place]? = some id ∨
      ∃ behind, place = siblings.length + behind ∧ others[behind]? = some sibling ∧
        made'[behind]? = some id := by
  rcases Nat.lt_or_ge place siblings.length with inside | behind
  · rw [List.getElem?_append_left inside] at found
    rw [List.getElem?_append_left (length ▸ inside)] at isMade
    exact .inl ⟨found, isMade⟩
  · rw [List.getElem?_append_right behind] at found
    rw [List.getElem?_append_right (length ▸ behind), length] at isMade
    exact .inr ⟨_, (Nat.add_sub_cancel' behind).symm, found, isMade⟩

/-- What one step has made of some siblings stays when the next step goes on with others. -/
theorem append (first : OneEach before middle siblings made results)
    (second : OneEach middle after others made' results') (grows : before.size ≤ middle.size)
    (adds : Adds middle after tops) :
    OneEach before after (siblings ++ others) (made ++ made') (results ++ results') := by
  have kept : ∀ id ∈ made, after.slot id = middle.slot id := fun id member =>
    adds.kept id (first.isNew id member).2
  have length := first.length_eq
  constructor
  case isNew =>
    intro id member
    rcases List.mem_append.1 member with member | member
    · exact ⟨(first.isNew id member).1, Nat.lt_of_lt_of_le (first.isNew id member).2 adds.grows⟩
    · exact ⟨Nat.le_trans grows (second.isNew id member).1, (second.isNew id member).2⟩
  case distinct =>
    refine List.nodup_append.2 ⟨first.distinct, second.distinct, ?_⟩
    rintro id member _ member' rfl
    exact absurd (first.isNew id member).2 (Nat.not_lt_of_le (second.isNew id member').1)
  case labels =>
    rw [List.map_append, List.map_append, second.labels, ← first.labels]
    refine congrArg (· ++ _) (List.map_congr_left fun id member => ?_)
    exact congrArg Slot.label (kept id member)
  case inOrder => exact first.inOrder.append second.inOrder
  case marks =>
    intro place mark id found isMade isMark
    rw [List.mem_append]
    rcases getElem?_append_cases length found isMade with ⟨found, isMade⟩ | ⟨_, _, found, isMade⟩
    · exact .inl (first.marks place mark id found isMade isMark)
    · exact .inr (second.marks _ mark id found isMade isMark)
  case others =>
    intro place sibling id found isMade other
    rw [List.mem_append]
    rcases getElem?_append_cases length found isMade with
      ⟨found, isMade⟩ | ⟨behind, rfl, found, isMade⟩
    · rcases first.others place sibling id found isMade other with
        stays | ⟨later, paragraph, next, isParagraph, taken⟩
      · exact .inl (.inl stays)
      · have member : paragraph ∈ made := List.mem_of_getElem? isParagraph
        refine .inr ⟨later, paragraph, next.append_left others, ?_, ?_⟩
        · rw [List.getElem?_append_left (List.getElem?_eq_some_iff.1 isParagraph).1, isParagraph]
        · rw [NodeStore.children, kept paragraph member]
          exact taken
    · rcases second.others behind sibling id found isMade other with
        stays | ⟨later, paragraph, next, isParagraph, taken⟩
      · exact .inl (.inr stays)
      · refine .inr ⟨siblings.length + later, paragraph, next.append_right siblings, ?_, taken⟩
        rw [List.getElem?_append_right (by omega), length, Nat.add_sub_cancel_left, isParagraph]

/-- Nodes that are all results. -/
theorem of_adds (adds : Adds before after made)
    (labels : made.map after.label = siblings.map Branch.label) :
    OneEach before after siblings made made where
  isNew id member := ⟨adds.fresh id member, adds.inRange id member⟩
  distinct := adds.nodup
  labels := labels
  inOrder := .refl made
  marks _ _ _ _ isMade _ := List.mem_of_getElem? isMade
  others _ _ _ _ isMade _ := .inl (List.mem_of_getElem? isMade)

private theorem getElem?_concat_cases {α : Type} {front : List α} {last value : α} {place : Nat}
    (found : (front ++ [last])[place]? = some value) :
    place < front.length ∧ front[place]? = some value ∨ place = front.length ∧ value = last := by
  rcases Nat.lt_or_ge place front.length with inside | behind
  · rw [List.getElem?_append_left inside] at found
    exact .inl ⟨inside, found⟩
  · have bound := (List.getElem?_eq_some_iff.1 found).1
    rw [List.length_append, List.length_singleton] at bound
    have isLast : place = front.length := by omega
    rw [isLast, List.getElem?_append_right (Nat.le_refl _), Nat.sub_self, List.getElem?_cons_zero,
      Option.some.injEq] at found
    exact .inr ⟨isLast, found.symm⟩

/-- A paragraph that takes in all new nodes, behind copies of its properties. -/
theorem close (mark : Branch) {copies : List NodeId} (wellFormed : before.WellFormed)
    (isMark : mark.kind = .paragraph)
    (inline : ∀ sibling ∈ siblings, sibling.isBlockLevel = false)
    (adds : Adds (before.alloc mark.label).1 after (copies ++ made))
    (labels : made.map after.label = siblings.map Branch.label) :
    OneEach before (after.setChildren (before.alloc mark.label).2 (copies ++ made))
      (siblings ++ [mark]) (made ++ [(before.alloc mark.label).2])
      [(before.alloc mark.label).2] := by
  have alloc := Adds.alloc wellFormed mark.label
  have inRange := alloc.inRange _ List.mem_cons_self
  have length := length_eq_of_labels labels
  have fresh : ∀ id ∈ made, (before.alloc mark.label).1.size ≤ id := fun id member =>
    adds.fresh id (List.mem_append_right _ member)
  constructor
  case isNew =>
    rw [List.forall_mem_append, List.forall_mem_singleton, size_setChildren]
    refine ⟨fun id member => ⟨Nat.le_trans alloc.grows (fresh id member), ?_⟩, ?_⟩
    · exact adds.inRange id (List.mem_append_right _ member)
    · exact ⟨Nat.le_refl _, Nat.lt_of_lt_of_le inRange adds.grows⟩
  case distinct =>
    refine List.nodup_append.2 ⟨(List.nodup_append.1 adds.nodup).2.1, by simp, ?_⟩
    rintro id member _ member' rfl
    rw [List.mem_singleton.1 member'] at member
    exact absurd inRange (Nat.not_lt_of_le (fresh _ member))
  case labels =>
    have same : (after.setChildren (before.alloc mark.label).2 (copies ++ made)).label =
        after.label := funext fun id => label_setChildren ..
    have kept : after.label (before.alloc mark.label).2 = mark.label :=
      (congrArg Slot.label (adds.kept _ inRange)).trans (label_alloc before mark.label)
    rw [same, List.map_append, labels, List.map_singleton, kept, List.map_append,
      List.map_singleton]
  case inOrder => exact List.sublist_append_right _ _
  case marks =>
    intro place other id found isMade isMark'
    rcases getElem?_concat_cases found with ⟨_, among⟩ | ⟨isLast, _⟩
    · exact absurd isMark' (Branch.kind_ne_of_inline (inline other (List.mem_of_getElem? among)))
    · rw [isLast, ← length, List.getElem?_concat_length, Option.some.injEq] at isMade
      exact isMade ▸ List.mem_cons_self
  case others =>
    intro place sibling id found isMade other
    rcases getElem?_concat_cases found with ⟨inside, among⟩ | ⟨_, rfl⟩
    · refine .inr ⟨siblings.length, _, ⟨inside, ⟨mark, List.getElem?_concat_length, isMark⟩, ?_⟩,
        by rw [← length, List.getElem?_concat_length], ?_⟩
      · intro between inner _ upTo found
        rw [List.getElem?_append_left upTo] at found
        exact inline inner (List.mem_of_getElem? found)
      · rw [children_setChildren (Nat.lt_of_lt_of_le inRange adds.grows), if_pos rfl]
        rw [List.getElem?_append_left (length ▸ inside)] at isMade
        exact List.mem_append_right _ (List.mem_of_getElem? isMade)
    · exact absurd isMark other

end OneEach

/-! ## Groups -/

/-- Siblings whose rebuilt nodes have their labels. -/
def KeepLabels (rebuilds : List Rebuild) : Prop :=
  ∀ rebuild ∈ rebuilds, ∀ store : NodeStore, store.WellFormed →
    (rebuild.add store).1.label (rebuild.add store).2 = rebuild.source.label

theorem oneEach_addEach (all : Rebuild.AllAdd rebuilds) (keep : KeepLabels rebuilds)
    (wellFormed : store.WellFormed) :
    OneEach store (store.addEach rebuilds).1 (rebuilds.map Rebuild.source)
      (store.addEach rebuilds).2 (store.addEach rebuilds).2 := by
  induction rebuilds generalizing store with
  | nil => exact .of_adds (.refl wellFormed) rfl
  | cons rebuild rest ih =>
      rcases List.forall_mem_cons.1 all with ⟨adds, others⟩
      rcases List.forall_mem_cons.1 keep with ⟨label, labels⟩
      have first := adds store wellFormed
      have one : OneEach store (rebuild.add store).1 [rebuild.source] [(rebuild.add store).2]
          [(rebuild.add store).2] := .of_adds first (congrArg ([·]) (label store wellFormed))
      exact one.append (ih others labels first.wellFormed) first.grows
        (adds_addEach others first.wellFormed)

/-- A group yields one node for each of its members: without a paragraph mark at its end these are
the results, and else they are in the paragraph of the mark. -/
theorem exists_oneEach_addGroup (all : Rebuild.AllAdd group) (keep : KeepLabels group)
    (inline : ∀ rebuild ∈ group.dropLast, rebuild.source.isBlockLevel = false)
    (wellFormed : store.WellFormed) :
    ∃ made, OneEach store (store.addGroup group).1 (group.map Rebuild.source) made
      (store.addGroup group).2 := by
  rcases List.eq_nil_or_concat group with rfl | ⟨left, last, rfl⟩
  · exact ⟨[], .of_adds (.refl wellFormed) rfl⟩
  rw [List.concat_eq_append] at all keep inline ⊢
  rw [List.dropLast_concat] at inline
  rcases source : last.source with ⟨label, props⟩
  by_cases isMark : label.kind = .paragraph
  · -- The paragraph is added first, then copies of its properties and the rest of the group.
    have copies := (adds_graftAll props (Adds.alloc wellFormed label).wellFormed).1
    have left_all := all.mono (List.subset_append_left left [last])
    have members := adds_addEach left_all copies.wellFormed
    have each := oneEach_addEach left_all
      (fun rebuild member => keep rebuild (List.mem_append_left _ member)) copies.wellFormed
    have closed := OneEach.close (.mk label props) wellFormed isMark
      (List.forall_mem_map.2 inline) (copies.trans members) each.labels
    rw [addGroup, List.getLast?_concat, Option.map_some, source, List.dropLast_concat,
      List.map_append, List.map_singleton, source]
    simp only [if_pos isMark]
    exact ⟨_, closed⟩
  · have each : store.addGroup (left ++ [last]) = store.addEach (left ++ [last]) := by
      rw [addGroup, List.getLast?_concat, Option.map_some, source]
      exact if_neg isMark
    rw [each]
    exact ⟨_, oneEach_addEach all keep wellFormed⟩

theorem exists_oneEach_addGroups {groups : List (List Rebuild)}
    (all : ∀ group ∈ groups, Rebuild.AllAdd group) (keep : ∀ group ∈ groups, KeepLabels group)
    (inline : ∀ group ∈ groups, ∀ rebuild ∈ group.dropLast, rebuild.source.isBlockLevel = false)
    (wellFormed : store.WellFormed) :
    ∃ made, OneEach store (store.addGroups groups).1 (groups.flatten.map Rebuild.source) made
      (store.addGroups groups).2 := by
  induction groups generalizing store with
  | nil => exact ⟨[], .of_adds (.refl wellFormed) rfl⟩
  | cons group rest ih =>
      rw [List.forall_mem_cons] at all keep inline
      have grown := adds_addGroup all.1 wellFormed
      rcases exists_oneEach_addGroup all.1 keep.1 inline.1 wellFormed with ⟨made, first⟩
      rcases ih all.2 keep.2 inline.2 grown.wellFormed with ⟨made', others⟩
      rw [List.flatten_cons, List.map_append, addGroups]
      exact ⟨_, first.append others grown.grows (adds_addGroups all.2 grown.wellFormed)⟩

/-! ## Siblings -/

theorem label_addRegrouped (branch : Branch) (wellFormed : store.WellFormed) :
    (store.addRegrouped branch).1.label (store.addRegrouped branch).2 = branch.label := by
  rcases branch with ⟨label, children⟩
  have top : ∀ {built : NodeStore × NodeId} {below : List Branch}, built.1.WellFormed →
      built.1.branch built.2 = .mk label below → built.1.label built.2 = label := by
    intro built below grown isBuilt
    rw [grown.branch_eq, Branch.mk.injEq] at isBuilt
    exact isBuilt.1
  rw [addRegrouped]
  split
  · rcases adds_graft (.mk label children) wellFormed with ⟨adds, branch⟩
    exact top adds.wellFormed branch
  · have below := adds_addSiblings (allAdd_rebuildsOf children) wellFormed
    rw [← List.append_nil (store.addSiblings (rebuildsOf children)).2] at below
    rcases below.addOver label with ⟨adds, branch⟩
    exact top adds.wellFormed branch

theorem map_source_rebuildsOf (siblings : List Branch) :
    (rebuildsOf siblings).map Rebuild.source = siblings := by
  induction siblings with
  | nil => rfl
  | cons sibling rest ih => rw [rebuildsOf, List.map_cons, ih]

theorem keepLabels_rebuildsOf (siblings : List Branch) : KeepLabels (rebuildsOf siblings) := by
  induction siblings with
  | nil =>
      rw [rebuildsOf]
      exact List.forall_mem_nil _
  | cons sibling rest ih =>
      rw [rebuildsOf]
      exact List.forall_mem_cons.2 ⟨fun _ wellFormed => label_addRegrouped sibling wellFormed, ih⟩

/-- Regrouping siblings yields one node for each of them. -/
theorem exists_oneEach_addSiblings (siblings : List Branch) (wellFormed : store.WellFormed) :
    ∃ made, OneEach store (store.addSiblings (rebuildsOf siblings)).1 siblings made
      (store.addSiblings (rebuildsOf siblings)).2 := by
  have all := allAdd_rebuildsOf siblings
  have keep := keepLabels_rebuildsOf siblings
  have sources := map_source_rebuildsOf siblings
  rw [addSiblings]
  split
  · have groups := exists_oneEach_addGroups
      (fun group member => all.mono (subset_of_mem_groupsAfter member))
      (fun group member rebuild among => keep rebuild (subset_of_mem_groupsAfter member among))
      (endWhereClosed_groupsAfter (·.source.isBlockLevel) (rebuildsOf siblings)).isOpen wellFormed
    rwa [groupsAfter_flatten, sources] at groups
  · have each := oneEach_addEach all keep wellFormed
    rw [sources] at each
    exact ⟨_, each⟩

/-- The groups of a list are slices of it.  Of all its slices they are those that end where a group
is closed, those in which values are together while nothing closes their group, and those that the
running index tells.  Siblings of a document, which have nothing below texts and comments as every
`Node`, are regrouped by their groups, and in a store every sibling gets one new node. -/
theorem siblings_in_groups :
    (∀ (α : Type) (closes : α → Bool) (values : List α),
      AreSlices (groupsAfter closes values) values ∧
        ∀ slices, AreSlices slices values →
          (slices = groupsAfter closes values ↔ EndWhereClosed closes slices) ∧
          (EndWhereClosed closes slices ↔
            TogetherWhileOpen closes values (sliceNumbers 0 slices)) ∧
          (EndWhereClosed closes slices ↔
            sliceNumbers 0 slices = runningIndexes closes 0 values)) ∧
    (∀ nodes : List Node, Node.RegroupsByGroups nodes) ∧
    (∀ (store : NodeStore) (siblings : List Branch), store.WellFormed →
      Adds store (store.addSiblings (rebuildsOf siblings)).1
          (store.addSiblings (rebuildsOf siblings)).2 ∧
        ∃ made, OneEach store (store.addSiblings (rebuildsOf siblings)).1 siblings made
          (store.addSiblings (rebuildsOf siblings)).2) := by
  refine ⟨fun α closes values => ⟨areSlices_groupsAfter closes values, ?_⟩,
    Node.regroupsByGroups, fun store siblings wellFormed => ⟨?_, ?_⟩⟩
  · exact fun slices areSlices => areSlices.grouping_iff
  · exact adds_addSiblings (allAdd_rebuildsOf siblings) wellFormed
  · exact exists_oneEach_addSiblings siblings wellFormed

/-- A run and a comment before a paragraph mark, a table, the mark of an empty paragraph, and a run
behind all marks. -/
def looseGroups : List (List Node) :=
  [[Bookmark.boldRun "one", .comment "c", Bookmark.wordElement "p" [] []],
    [Bookmark.wordElement "tbl" [] []], [Bookmark.wordElement "p" [] []],
    [Bookmark.boldRun "two"]]

theorem siblings_in_groups_loose :
    (AreSlices looseGroups looseGroups.flatten ∧
      looseGroups = groupsAfter Node.isBlockLevel looseGroups.flatten) ∧
    Node.RegroupsByGroups looseGroups.flatten ∧
    (empty.WellFormed ∧
      ∃ made, OneEach empty (empty.addSiblings (rebuildsOf (Branch.ofNodes looseGroups.flatten))).1
        (Branch.ofNodes looseGroups.flatten) made
        (empty.addSiblings (rebuildsOf (Branch.ofNodes looseGroups.flatten))).2) := by
  rcases siblings_in_groups with ⟨grouping, regroups, inStore⟩
  have areSlices : AreSlices looseGroups looseGroups.flatten := ⟨rfl, by simp [looseGroups]⟩
  rcases (grouping Node Node.isBlockLevel _).2 looseGroups areSlices with ⟨isGroups, -, indexes⟩
  have numbered : sliceNumbers 0 looseGroups =
      runningIndexes Node.isBlockLevel 0 looseGroups.flatten := by decide
  exact ⟨⟨areSlices, isGroups.2 (indexes.2 numbered)⟩, regroups _, wellFormed_empty,
    (inStore empty _ wellFormed_empty).2⟩

end NodeStore

end TemplateFill
