import TemplateFill.Proofs.Store.Documents
import TemplateFill.Store.Reader

/-!
# Open elements

While a document is read into a store, one element is open in another, each the last child of
the one around it.  Every step of the reader changes the innermost of them and its children
only, so what the others are known to hold stays.
-/

namespace TemplateFill

open Relation TemplateFill.Markup

namespace NodeStore

variable {store before after : NodeStore} {id focus child parent : NodeId}

/-! ## Changes at an open element -/

/-- Links and labels have changed at `focus` and its children only, and `focus` is where it
was. -/
structure EditsBelow (before after : NodeStore) (focus : NodeId) : Prop where
  wellFormed : after.WellFormed
  grows : before.size ≤ after.size
  kept : ∀ id < before.size, id ≠ focus → before.parent? id ≠ some focus →
    after.slot id = before.slot id
  parent_eq : after.parent? focus = before.parent? focus

namespace EditsBelow

theorem slot_eq_of_above (edits : EditsBelow before after focus) (wellFormed : before.WellFormed)
    (above : TransGen before.Up focus id) : after.slot id = before.slot id := by
  refine edits.kept id ?_ ?_ fun up => ?_
  · rcases above with up | ⟨-, up⟩ <;> exact wellFormed.parentInRange _ _ up
  · rintro rfl
    exact wellFormed.acyclic id above
  · exact wellFormed.acyclic focus (above.tail up)

theorem parent?_eq_of_below (edits : EditsBelow before after focus)
    (wellFormed : before.WellFormed) (below : before.Below focus id) :
    after.parent? id = before.parent? id := by
  rcases below.cases_tail with rfl | ⟨_, way, up⟩
  · exact edits.parent_eq
  · exact congrArg Slot.parent (edits.slot_eq_of_above wellFormed (.tail' way up))

/-- The way up from the open element is the one from before. -/
theorem below_of_below (edits : EditsBelow before after focus) (wellFormed : before.WellFormed)
    (below : after.Below focus id) : before.Below focus id := by
  induction below with
  | refl => exact .refl
  | tail _ up ih =>
      rw [Up, edits.parent?_eq_of_below wellFormed ih] at up
      exact ih.tail up

/-- What hangs elsewhere stays. -/
theorem branch_eq (edits : EditsBelow before after focus) (wellFormed : before.WellFormed)
    (used : child < before.size) (elsewhere : before.parent? child ≠ some focus)
    (apart : ¬ before.Below focus child) : after.branch child = before.branch child := by
  refine wellFormed.branch_congr edits.grows fun inner below => ?_
  have kept : after.slot inner = before.slot inner := by
    refine edits.kept inner (lt_size_of_below used below) ?_ fun up => ?_
    · rintro rfl
      exact apart below
    · rcases below.cases_head with rfl | ⟨_, up', below⟩
      · exact elsewhere up
      · rw [Up, up, Option.some.injEq] at up'
        exact apart (up' ▸ below)
  exact ⟨congrArg Slot.label kept, congrArg Slot.children kept⟩

end EditsBelow

/-! ## A new child -/

section AddBelow

variable (wellFormed : store.WellFormed) (used : parent < store.size) (label : Label)

include wellFormed used

private theorem addBelow_eq : store.addBelow parent label =
    (store.alloc label).1.setChildren parent (store.children parent ++ [store.size]) := by
  have alloc := Adds.alloc wellFormed label
  rw [addBelow, alloc.wellFormed.append_eq (Nat.lt_of_lt_of_le used alloc.grows)
    (alloc.inRange _ List.mem_cons_self), children_alloc]
  rfl

private theorem adopts_addBelow :
    (store.alloc label).1.Adopts parent (store.children parent ++ [store.size]) := by
  have alloc := Adds.alloc wellFormed label
  have old : ∀ child ∈ store.children parent, child ≠ store.size := fun child member =>
    Nat.ne_of_lt (wellFormed.childInRange parent child member)
  refine alloc.wellFormed.adopts (Nat.lt_of_lt_of_le used alloc.grows) ?_ fun child member => ?_
  · refine List.nodup_append.2 ⟨wellFormed.nodup parent, by simp, ?_⟩
    rintro child member _ (_ | ⟨_, ⟨⟩⟩)
    exact old child member
  · rcases List.mem_append.1 member with member | member
    · exact .inl (by rwa [children_alloc])
    · cases List.mem_singleton.1 member
      refine .inr ⟨alloc.inRange _ List.mem_cons_self, alloc.detached _ List.mem_cons_self, ?_⟩
      intro below
      rcases below.cases_tail with same | ⟨_, -, up⟩
      · exact Nat.ne_of_lt used same.symm
      · have member := (alloc.wellFormed.linked _ _).2 up
        rw [children_alloc, children_size] at member
        cases member

theorem WellFormed.addBelow : (store.addBelow parent label).WellFormed := by
  rw [addBelow_eq wellFormed used]
  exact (Adds.alloc wellFormed label).wellFormed.setChildren
    (adopts_addBelow wellFormed used label)

omit wellFormed used in
theorem size_addBelow (store : NodeStore) (parent : NodeId) (label : Label) :
    (store.addBelow parent label).size = store.size + 1 := by
  rw [NodeStore.addBelow, size_append, size_alloc]

theorem children_addBelow (id : NodeId) : (store.addBelow parent label).children id =
    if id = parent then store.children parent ++ [store.size] else store.children id := by
  rw [addBelow_eq wellFormed used,
    children_setChildren (adopts_addBelow wellFormed used label).parentInRange, children_alloc]

theorem parent?_addBelow (id : NodeId) : (store.addBelow parent label).parent? id =
    if id = store.size then some parent else store.parent? id := by
  have alloc := Adds.alloc wellFormed label
  have linked := wellFormed.linked parent id
  rw [addBelow_eq wellFormed used, alloc.wellFormed.parent?_setChildren
    (adopts_addBelow wellFormed used label).inRange, children_alloc, parent?_alloc]
  grind

theorem label_addBelow (id : NodeId) : (store.addBelow parent label).label id =
    if id = store.size then label else store.label id := by
  rw [addBelow_eq wellFormed used, label_setChildren, NodeStore.label, slot_alloc]
  split <;> rfl

theorem editsBelow_addBelow : EditsBelow store (store.addBelow parent label) parent where
  wellFormed := wellFormed.addBelow used label
  grows := by rw [size_addBelow]; exact Nat.le_succ _
  kept id old other _ := by
    have notNew : id ≠ store.size := Nat.ne_of_lt old
    refine Slot.eq_of_links ((label_addBelow wellFormed used label id).trans (if_neg notNew))
      ((parent?_addBelow wellFormed used label id).trans (if_neg notNew))
      ((children_addBelow wellFormed used label id).trans (if_neg other))
  parent_eq :=
    (parent?_addBelow wellFormed used label parent).trans (if_neg (Nat.ne_of_lt used))

/-- The children of the parent keep what is below them. -/
theorem branch_addBelow (isChild : store.parent? child = some parent) :
    (store.addBelow parent label).branch child = store.branch child := by
  have inRange := lt_size_of_parent? isChild
  refine wellFormed.branch_congr (by rw [size_addBelow]; exact Nat.le_succ _)
    fun inner below => ⟨?_, ?_⟩
  · rw [label_addBelow wellFormed used, if_neg (Nat.ne_of_lt (lt_size_of_below inRange below))]
  · rw [children_addBelow wellFormed used, if_neg]
    rintro rfl
    exact wellFormed.acyclic _ (.head' isChild below)

/-- Below the new child is nothing. -/
theorem branch_addBelow_self :
    (store.addBelow parent label).branch store.size = .mk label [] := by
  rw [(wellFormed.addBelow used label).branch_eq, label_addBelow wellFormed used, if_pos rfl,
    children_addBelow wellFormed used, if_neg (Nat.ne_of_gt used), children_size, List.map_nil]

end AddBelow

/-! ## A text that goes on -/

section SetLabel

@[simp] theorem size_setLabel (store : NodeStore) (id : NodeId) (label : Label) :
    (store.setLabel id label).size = store.size := size_update ..

@[simp] theorem parent?_setLabel (store : NodeStore) (id : NodeId) (label : Label)
    (other : NodeId) : (store.setLabel id label).parent? other = store.parent? other := by
  simp only [parent?, setLabel, slot_update]
  split <;> simp_all

@[simp] theorem children_setLabel (store : NodeStore) (id : NodeId) (label : Label)
    (other : NodeId) : (store.setLabel id label).children other = store.children other := by
  simp only [NodeStore.children, setLabel, slot_update]
  split <;> simp_all

theorem label_setLabel (used : id < store.size) (label : Label) (other : NodeId) :
    (store.setLabel id label).label other = if other = id then label else store.label other := by
  simp only [NodeStore.label, setLabel, slot_update, used, and_true]
  split <;> rfl

variable (wellFormed : store.WellFormed) (isChild : store.parent? id = some parent)
  (label : Label)

include wellFormed isChild

theorem editsBelow_setLabel : EditsBelow store (store.setLabel id label) parent where
  wellFormed :=
    wellFormed.congr (parent?_setLabel store id label) (children_setLabel store id label)
  grows := Nat.le_of_eq (size_setLabel ..).symm
  kept other _ _ elsewhere := by
    refine slot_update_of_ne ?_
    rintro rfl
    exact elsewhere isChild
  parent_eq := parent?_setLabel ..

theorem branch_setLabel : (store.setLabel id label).branch id =
    .mk label (store.branch id).children := by
  have edits := editsBelow_setLabel wellFormed isChild label
  rw [edits.wellFormed.branch_eq, wellFormed.branch_eq id, children_setLabel,
    label_setLabel (lt_size_of_parent? isChild), if_pos rfl]
  refine congrArg (Branch.mk label) (List.map_congr_left fun child member => ?_)
  refine wellFormed.branch_congr (Nat.le_of_eq (size_setLabel ..).symm) fun inner below =>
    ⟨?_, children_setLabel ..⟩
  rw [label_setLabel (lt_size_of_parent? isChild), if_neg]
  rintro rfl
  exact wellFormed.acyclic _ (.tail' below ((wellFormed.linked _ _).1 member))

/-- Siblings keep what is below them. -/
theorem branch_setLabel_of_ne (sibling : store.parent? child = some parent) (other : child ≠ id) :
    (store.setLabel id label).branch child = store.branch child := by
  refine wellFormed.branch_congr (Nat.le_of_eq (size_setLabel ..).symm) fun inner below =>
    ⟨?_, children_setLabel ..⟩
  rw [label_setLabel (lt_size_of_parent? isChild), if_neg]
  rintro rfl
  exact wellFormed.not_below_sibling isChild sibling other.symm below

end SetLabel

/-! ## Children that are dropped -/

section Keep

variable {kept : List NodeId}

variable (wellFormed : store.WellFormed) (sublist : kept.Sublist (store.children parent))

include wellFormed sublist

theorem adopts_of_sublist (used : parent < store.size) : store.Adopts parent kept :=
  wellFormed.adopts used (sublist.nodup (wellFormed.nodup parent)) fun _ member =>
    .inl (sublist.subset member)

theorem editsBelow_setChildren (used : parent < store.size) :
    EditsBelow store (store.setChildren parent kept) parent where
  wellFormed := wellFormed.setChildren (adopts_of_sublist wellFormed sublist used)
  grows := Nat.le_of_eq (size_setChildren ..).symm
  kept id _ other elsewhere := by
    have notChild : id ∉ store.children parent := fun member =>
      elsewhere ((wellFormed.linked parent id).1 member)
    have inRange := (adopts_of_sublist wellFormed sublist used).inRange
    refine Slot.eq_of_links (label_setChildren ..) ?_ ?_
    · refine (wellFormed.parent?_setChildren inRange parent id).trans ?_
      rw [if_neg fun member => notChild (sublist.subset member), if_neg notChild]
      rfl
    · exact (children_setChildren used kept id).trans (if_neg other)
  parent_eq := by
    have notChild : parent ∉ store.children parent := fun member =>
      wellFormed.acyclic parent (.single ((wellFormed.linked parent parent).1 member))
    rw [wellFormed.parent?_setChildren (adopts_of_sublist wellFormed sublist used).inRange,
      if_neg fun member => notChild (sublist.subset member), if_neg notChild]

end Keep

/-! ## Open elements -/

/-- The open elements of a store hold what frames do: their children are the nodes that have
been closed and, last, the next open element in, which is `inner` at first.  None of the closed
nodes is `focus` or above it. -/
inductive Spine (store : NodeStore) (root : Option NodeId) (focus : NodeId) :
    List NodeId → List (NodeId × Frame) → List Frame → Prop where
  | nil {inner : List NodeId}
      (top : ∀ id ∈ inner, store.parent? id = none ∧ root = some id) :
      Spine store root focus inner [] []
  | cons {inner : List NodeId} {id : NodeId} {opened : List (NodeId × Frame)}
      {frames : List Frame} (frame : Frame) (closed : List NodeId)
      (inRange : id < store.size)
      (isElement : store.label id = .element frame.name frame.attrs)
      (children : store.children id = closed ++ inner)
      (below : closed.map store.branch = Branch.ofNodes frame.children.reverse)
      (apart : ∀ child ∈ closed, ¬ store.Below focus child)
      (outer : Spine store root focus [id] opened frames) :
      Spine store root focus inner ((id, { frame with children := [] }) :: opened)
        (frame :: frames)

namespace Spine

variable {root : Option NodeId} {next : NodeId} {inner : List NodeId}
  {opened : List (NodeId × Frame)} {frames : List Frame}

/-- The elements around the innermost open one stay as they are while this one changes. -/
theorem edited (edits : EditsBelow before after focus) (wellFormed : before.WellFormed)
    (ways : ∀ child < before.size, after.Below next child → before.Below focus child)
    (spine : Spine before root focus inner opened frames) (nonempty : inner ≠ [])
    (innerBelow : ∀ id ∈ inner, before.Below focus id) :
    Spine after root next inner opened frames := by
  induction spine with
  | nil top =>
      refine .nil fun id member => ?_
      rw [edits.parent?_eq_of_below wellFormed (innerBelow id member)]
      exact top id member
  | @cons inner id opened frames frame closed inRange isElement children below apart _ ih =>
      rcases List.exists_mem_of_ne_nil inner nonempty with ⟨last, isLast⟩
      have above : TransGen before.Up focus id := .tail' (innerBelow last isLast)
        ((wellFormed.linked id last).1 (children ▸ List.mem_append_right _ isLast))
      have kept := edits.slot_eq_of_above wellFormed above
      have isChild : ∀ child ∈ closed, before.parent? child = some id := fun child member =>
        (wellFormed.linked id child).1 (children ▸ List.mem_append_left _ member)
      have elsewhere : ∀ child ∈ closed, before.parent? child ≠ some focus := by
        intro child member up
        rw [isChild child member, Option.some.injEq] at up
        exact wellFormed.acyclic focus (up ▸ above)
      refine .cons frame closed (Nat.lt_of_lt_of_le inRange edits.grows)
        ((congrArg Slot.label kept).trans isElement) ((congrArg Slot.children kept).trans children)
        ?_ ?_ (ih (List.cons_ne_nil _ _) ?_)
      · rw [← below]
        exact List.map_congr_left fun child member => edits.branch_eq wellFormed
          (lt_size_of_parent? (isChild child member)) (elsewhere child member) (apart child member)
      · exact fun child member below => apart child member
          (ways child (lt_size_of_parent? (isChild child member)) below)
      · intro other member
        rw [List.mem_singleton.1 member]
        exact above.to_reflTransGen

variable {frame head : Frame}

/-- The open element takes the node that has been its next open element among those that have
been closed. -/
theorem absorb {node : Node} (apart : ¬ store.Below focus child)
    (below : store.branch child = .ofNode node)
    (spine : Spine store root focus [child] ((id, head) :: opened) (frame :: frames)) :
    Spine store root focus [] ((id, head) :: opened) (frame.push node :: frames) := by
  cases spine with
  | cons _ closed inRange isElement children belowClosed apartClosed outer =>
      refine .cons (frame.push node) (closed ++ [child]) inRange isElement ?_ ?_ ?_ outer
      · rw [children, List.append_nil]
      · rw [List.map_append, belowClosed, List.map_cons, below, Frame.push, List.reverse_cons,
          Branch.ofNodes_append]
        rfl
      · intro other member
        rcases List.mem_append.1 member with member | member
        · exact apartClosed other member
        · rwa [List.mem_singleton.1 member]

/-- A new node below the innermost open element is the next open one. -/
theorem addBelow (wellFormed : store.WellFormed) (label : Label)
    (ways : ∀ child < store.size,
      (store.addBelow id label).Below next child → store.Below id child)
    (spine : Spine store root id [] ((id, head) :: opened) (frame :: frames)) :
    Spine (store.addBelow id label) root next [store.size] ((id, head) :: opened)
      (frame :: frames) := by
  cases spine with
  | cons _ closed inRange isElement children below apart outer =>
      rw [List.append_nil] at children
      have edits := editsBelow_addBelow wellFormed inRange label
      have isChild : ∀ child ∈ closed, store.parent? child = some id := fun child member =>
        (wellFormed.linked id child).1 (children ▸ member)
      refine .cons frame closed (Nat.lt_of_lt_of_le inRange edits.grows) ?_ ?_ ?_ ?_
        (outer.edited edits wellFormed ways (List.cons_ne_nil _ _) ?_)
      · rw [label_addBelow wellFormed inRange, if_neg (Nat.ne_of_lt inRange), isElement]
      · rw [children_addBelow wellFormed inRange, if_pos rfl, children]
      · rw [← below]
        exact List.map_congr_left fun child member =>
          branch_addBelow wellFormed inRange label (isChild child member)
      · exact fun child member way => apart child member
          (ways child (lt_size_of_parent? (isChild child member)) way)
      · intro other member
        rw [List.mem_singleton.1 member]
        exact .refl

theorem inRange (spine : Spine store root focus inner ((id, head) :: opened) frames) :
    id < store.size := by
  cases spine
  assumption

/-- A node without children is put behind those that have been closed. -/
theorem push {node : Node} {label : Label} (leaf : Branch.ofNode node = .mk label [])
    (wellFormed : store.WellFormed)
    (spine : Spine store root id [] ((id, head) :: opened) (frame :: frames)) :
    Spine (store.addBelow id label) root id [] ((id, head) :: opened)
      (frame.push node :: frames) := by
  have used := spine.inRange
  have edits := editsBelow_addBelow wellFormed used label
  have apart : ¬ (store.addBelow id label).Below id store.size := by
    intro way
    rcases (edits.below_of_below wellFormed way).cases_tail with same | ⟨_, -, up⟩
    · exact Nat.ne_of_lt used same.symm
    · exact Nat.lt_irrefl _ (wellFormed.parentInRange _ _ up)
  exact absorb apart ((branch_addBelow_self wellFormed used label).trans leaf.symm)
    (spine.addBelow wellFormed label fun _ _ => edits.below_of_below wellFormed)

/-- Text that continues the last of the nodes that have been closed. -/
private theorem extendText {before : String} {others : List Node}
    {closed : List NodeId} {last : NodeId} (wellFormed : store.WellFormed) (content : String)
    (children : store.children id = closed ++ [last])
    (below : closed.map store.branch = Branch.ofNodes others.reverse)
    (isText : store.branch last = .ofNode (.text before))
    (spine : Spine store root id [] ((id, head) :: opened) (frame :: frames)) :
    Spine (store.setLabel last (.text (before ++ content))) root id [] ((id, head) :: opened)
      ({ frame with children := .text (before ++ content) :: others } :: frames) := by
  have isChild : ∀ child ∈ closed ++ [last], store.parent? child = some id := fun child member =>
    (wellFormed.linked id child).1 (children ▸ member)
  have isLast : store.parent? last = some id := isChild last (by simp)
  have edits := editsBelow_setLabel wellFormed isLast (.text (before ++ content))
  have distinct := wellFormed.nodup id
  rw [children] at distinct
  cases spine with
  | cons _ closed' inRange isElement children' _ apart outer =>
      rw [List.append_nil, children] at children'
      subst children'
      refine .cons { frame with children := .text (before ++ content) :: others }
        (closed ++ [last]) ?_ ?_ ?_ ?_ ?_
        (outer.edited edits wellFormed (fun _ _ => edits.below_of_below wellFormed)
          (List.cons_ne_nil _ _) ?_)
      · exact Nat.lt_of_lt_of_le inRange edits.grows
      · rw [label_setLabel (lt_size_of_parent? isLast), if_neg, isElement]
        rintro rfl
        exact wellFormed.acyclic _ (.single isLast)
      · rw [children_setLabel, children, List.append_nil]
      · have kept : closed.map (store.setLabel last (.text (before ++ content))).branch =
            closed.map store.branch := by
          refine List.map_congr_left fun child member => ?_
          refine branch_setLabel_of_ne wellFormed isLast _ (isChild child (by simp [member])) ?_
          rintro rfl
          exact (List.nodup_append.1 distinct).2.2 child member child (by simp) rfl
        rw [List.map_append, kept, below, List.map_cons, branch_setLabel wellFormed isLast, isText,
          List.reverse_cons, Branch.ofNodes_append]
        rfl
      · exact fun child member way => apart child member (edits.below_of_below wellFormed way)
      · intro other member
        rw [List.mem_singleton.1 member]
        exact .refl

/-- Text is put behind the nodes that have been closed, or continues the last of them. -/
theorem pushText (wellFormed : store.WellFormed) (content : List Char)
    (spine : Spine store root id [] ((id, head) :: opened) (frame :: frames)) :
    (store.pushText id (String.ofList content)).WellFormed ∧
      Spine (store.pushText id (String.ofList content)) root id [] ((id, head) :: opened)
        (frame.pushText content :: frames) := by
  have used := spine.inRange
  have pushed : (store.addBelow id (.text (String.ofList content))).WellFormed ∧
      Spine (store.addBelow id (.text (String.ofList content))) root id [] ((id, head) :: opened)
        (frame.push (.text (String.ofList content)) :: frames) :=
    ⟨wellFormed.addBelow used _, spine.push rfl wellFormed⟩
  have whole := spine
  cases spine with
  | cons _ closed inRange isElement children below apart outer =>
      rw [List.append_nil] at children
      rw [NodeStore.pushText, Frame.pushText, children]
      cases texts : frame.children with
      | nil =>
          have none : closed = [] := by
            rw [texts] at below
            exact List.map_eq_nil_iff.1 below
          rw [none]
          exact pushed
      | cons node others =>
          rw [texts, List.reverse_cons, Branch.ofNodes_append, List.map_eq_append_iff] at below
          rcases below with ⟨front, back, rfl, belowFront, belowBack⟩
          rcases List.map_eq_singleton_iff.1 belowBack with ⟨last, rfl, belowLast⟩
          rw [List.getLast?_concat, Option.map_some, wellFormed.label_eq belowLast]
          cases node with
          | text before =>
              have isLast : store.parent? last = some id :=
                (wellFormed.linked id last).1 (children ▸ by simp)
              exact ⟨(editsBelow_setLabel wellFormed isLast _).wellFormed,
                whole.extendText wellFormed _ children belowFront belowLast⟩
          | element | comment => exact pushed

end Spine

/-! ## End tags -/

theorem EditsBelow.refl (wellFormed : store.WellFormed) (id : NodeId) : EditsBelow store store id :=
  ⟨wellFormed, Nat.le_refl _, fun _ _ _ _ => rfl, rfl⟩

theorem isBlankText_label (node : Node) :
    node.label.isBlankText = Frame.isBlankTextNode node := by
  cases node <;> rfl

/-- Taking out indentation leaves the element of the frame. -/
theorem dropIndentation_spec {frame : Frame} {closed : List NodeId} (wellFormed : store.WellFormed)
    (isElement : store.label id = .element frame.name frame.attrs)
    (children : store.children id = closed)
    (below : closed.map store.branch = Branch.ofNodes frame.children.reverse) :
    EditsBelow store (store.dropIndentation id) id ∧
      (store.dropIndentation id).branch id = .ofNode frame.close := by
  have elements := (map_branch_filter wellFormed (·.name?.isSome) below).2
  have kept := (map_branch_filter wellFormed (fun label => !label.isBlankText) below).1
  simp only [isBlankText_label] at kept
  have closedAs : ∀ nodes, closed.map store.branch = Branch.ofNodes nodes →
      store.branch id = .ofNode (.element frame.name frame.attrs nodes) := by
    intro nodes same
    rw [wellFormed.branch_eq, isElement, children, same, Branch.ofNode]
  rw [dropIndentation, Frame.close, Frame.dropIndentation, children]
  cases some : closed.any fun child => (store.label child).name?.isSome with
  | false =>
      have none : frame.children.reverse.any Node.isElement = false := elements.symm.trans some
      rw [none]
      exact ⟨.refl wellFormed id, closedAs _ below⟩
  | true =>
      have any : frame.children.reverse.any Node.isElement = true := elements.symm.trans some
      have sublist : (closed.filter fun child => !(store.label child).isBlankText).Sublist
          (store.children id) := by
        rw [children]
        exact List.filter_sublist
      rw [any, if_pos rfl]
      by_cases all : (closed.filter fun child => !(store.label child).isBlankText).length =
          closed.length
      · have same := List.filter_sublist.eq_of_length all
        rw [same] at kept
        simp only [all, bne_self_eq_false, Bool.and_false, Bool.false_eq_true, if_false]
        exact ⟨.refl wellFormed id, closedAs _ kept⟩
      · have used : id < store.size := by
          rcases List.any_eq_true.1 some with ⟨child, member, -⟩
          exact lt_size_of_mem_children (children ▸ member)
        have edits := editsBelow_setChildren wellFormed sublist used
        simp only [bne_iff_ne, ne_eq, all, not_false_eq_true, Bool.true_and, if_true]
        refine ⟨edits, ?_⟩
        rw [wellFormed.branch_setChildren_self (adopts_of_sublist wellFormed sublist used),
          isElement, kept, Branch.ofNode]

end NodeStore

end TemplateFill
