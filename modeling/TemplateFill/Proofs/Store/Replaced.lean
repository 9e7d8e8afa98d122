import TemplateFill.Proofs.Markup.Place
import TemplateFill.Proofs.Store.Located

/-!
# Replacing between markers of a store and of its document

A store that represents a document represents, after what is between two markers has been replaced,
the document in which the same has been replaced.
-/

namespace TemplateFill

open Relation

namespace NodeStore

variable {store after : NodeStore} {document : Node} {id top parent : NodeId} {path : Path}
  {children tops : List NodeId}

/-! ## Changes below a position -/

/-- A node is below one of several siblings only. -/
theorem WellFormed.not_below_other (wellFormed : store.WellFormed) {child sibling : NodeId}
    (linked : store.parent? child = some top) (linked' : store.parent? sibling = some top)
    (other : child ≠ sibling) (below : store.Below id child) : ¬ store.Below id sibling := by
  intro below'
  have oneWay : Relator.RightUnique store.Up := fun _ _ _ up up' =>
    Option.some.inj (up.symm.trans up')
  rcases ReflTransGen.total_of_right_unique oneWay below below' with way | way
  · exact wellFormed.not_below_sibling linked linked' other way
  · exact wellFormed.not_below_sibling linked' linked other.symm way

/-- A node that is reached is below the top. -/
theorem WellFormed.below_of_follow? (wellFormed : store.WellFormed)
    (reached : store.follow? top path = some id) : store.Below id top := by
  induction path generalizing top with
  | nil =>
      cases reached
      exact .refl
  | cons index rest ih =>
      rw [follow?, Option.bind_eq_some_iff] at reached
      rcases reached with ⟨child, isChild, reached⟩
      exact (ih reached).tail ((wellFormed.linked _ _).1 (List.mem_of_getElem? isChild))

/-- A list around the value at an index. -/
theorem exists_append_of_getElem? {α : Type} {values : List α} {index : Nat} {value : α}
    (found : values[index]? = some value) :
    ∃ left right, values = left ++ value :: right ∧ left.length = index := by
  rcases List.getElem?_eq_some_iff.1 found with ⟨inside, rfl⟩
  refine ⟨values.take index, values.drop (index + 1), ?_, ?_⟩
  · rw [← List.drop_eq_getElem_cons inside, List.take_append_drop]
  · exact List.length_take_of_le (Nat.le_of_lt inside)

/-- On the way to the parent that gets other children, the siblings that are passed by keep what
is below them. -/
theorem WellFormed.siblings_kept (wellFormed : store.WellFormed)
    (adopts : store.Adopts parent children) {left right : List NodeId} {child : NodeId}
    (split : store.children top = left ++ child :: right) (way : store.Below parent child) :
    left.map (store.setChildren parent children).branch = left.map store.branch ∧
      right.map (store.setChildren parent children).branch = right.map store.branch := by
  have linked : ∀ sibling ∈ left ++ child :: right, store.parent? sibling = some top :=
    fun sibling member => (wellFormed.linked top sibling).1 (split ▸ member)
  have kept : ∀ sibling ∈ left ++ child :: right, child ≠ sibling →
      (store.setChildren parent children).branch sibling = store.branch sibling :=
    fun sibling member apart =>
      wellFormed.branch_setChildren_of_not_below adopts.parentInRange
        (wellFormed.not_below_other (linked child (by simp)) (linked sibling member) apart way)
  have distinct := wellFormed.nodup top
  rw [split, List.nodup_append, List.nodup_cons] at distinct
  constructor
  · refine List.map_congr_left fun sibling member => kept sibling (by simp [member]) ?_
    exact (distinct.2.2 sibling member child List.mem_cons_self).symm
  · refine List.map_congr_left fun sibling member => kept sibling (by simp [member]) ?_
    rintro rfl
    exact distinct.2.1.1 member

/-- What is below a node changes at the position of the parent that gets other children. -/
theorem WellFormed.branch_setChildren_at (wellFormed : store.WellFormed)
    (adopts : store.Adopts parent children) {change : Node → Node} {node target : Node}
    (below : store.branch top = .ofNode node) (reached : store.follow? top path = some parent)
    (found : node.at? path = some target)
    (changed : (store.setChildren parent children).branch parent = .ofNode (change target)) :
    (store.setChildren parent children).branch top = .ofNode (node.updateAt change path) := by
  induction path generalizing top node with
  | nil =>
      cases reached
      cases found
      exact changed
  | cons index rest ih =>
      rw [follow?, Option.bind_eq_some_iff] at reached
      rcases reached with ⟨child, isChild, reached⟩
      rw [Node.at?, Option.bind_eq_some_iff] at found
      rcases found with ⟨inner, isInner, found⟩
      have way := wellFormed.below_of_follow? reached
      have other : top ≠ parent := by
        rintro rfl
        exact wellFormed.acyclic top
          (.tail' way ((wellFormed.linked top child).1 (List.mem_of_getElem? isChild)))
      rcases exists_append_of_getElem? isChild with ⟨left, right, split, rfl⟩
      rcases wellFormed.siblings_kept adopts split way with ⟨keptLeft, keptRight⟩
      rw [(wellFormed.setChildren adopts).branch_eq, label_setChildren,
        children_setChildren adopts.parentInRange, if_neg other, split]
      rw [wellFormed.branch_eq, split] at below
      cases node with
      | text | comment => cases isInner
      | element name attrs nodes =>
          rcases exists_append_of_getElem? isInner with ⟨lefts, rights, splitNodes, lengths⟩
          have splitNodes : nodes = lefts ++ inner :: rights := splitNodes
          subst splitNodes
          rw [Branch.ofNode, Branch.mk.injEq, Branch.ofNodes_eq_map, List.map_append, List.map_cons,
            List.map_append, List.map_cons] at below
          rcases Node.append_cons_inj below.2 (by simp [lengths]) with
            ⟨belowLeft, isBelow, belowRight⟩
          rw [← lengths, Node.updateAt_down, Branch.ofNode, Branch.ofNodes_eq_map, below.1]
          simp only [List.map_append, List.map_cons, keptLeft, keptRight, belowLeft, belowRight,
            ih isBelow reached found]

/-! ## The placeholder -/

/-- The formatting of the first run is found in the store as in the document. -/
theorem WellFormed.firstFormatting?_agrees (wellFormed : store.WellFormed) {range : List NodeId}
    {nodes : List Node} (below : range.map store.branch = Branch.ofNodes nodes) :
    store.firstFormatting? range = none ∧ Node.firstFormatting? nodes = none ∨
      ∃ id node, store.firstFormatting? range = some id ∧
        Node.firstFormatting? nodes = some node ∧ store.branch id = .ofNode node ∧
        id < store.size := by
  have corresponds : ∀ {ids : List NodeId} {nodes : List Node},
      ids.map store.branch = Branch.ofNodes nodes →
        List.Forall₂ (fun id node => store.branch id = .ofNode node) ids nodes := by
    intro ids nodes below
    rwa [Branch.ofNodes_eq_map, ← List.forall₂_eq_eq_eq, List.forall₂_map_left_iff,
      List.forall₂_map_right_iff] at below
  have sameKind : ∀ (kind : Kind) id node, store.branch id = .ofNode node →
      ((store.label id).kind == kind) = (node.kind == kind) := by
    intro kind id node below
    rw [wellFormed.label_eq below]
    rfl
  rw [NodeStore.firstFormatting?, Node.firstFormatting?]
  rcases find?_of_forall₂ (sameKind .run) (corresponds below) with
    ⟨none, none'⟩ | ⟨run, runNode, isRun, isRun', below⟩
  · rw [none, none']
    exact .inl ⟨rfl, rfl⟩
  · rw [isRun, isRun']
    rcases find?_of_forall₂ (sameKind .runProps)
        (corresponds (wellFormed.map_branch_children below)) with
      none | ⟨props, propsNode, isProps, isProps', below⟩
    · exact .inl none
    · exact .inr ⟨props, propsNode, isProps, isProps', below,
        wellFormed.childInRange run props (List.mem_of_find?_eq_some isProps)⟩

/-- The placeholder for a range is that of the document. -/
theorem WellFormed.branch_addPlaceholder (wellFormed : store.WellFormed) {range : List NodeId}
    {nodes : List Node} (below : range.map store.branch = Branch.ofNodes nodes) :
    (store.addPlaceholder range).1.branch (store.addPlaceholder range).2 =
      .ofNode (Node.placeholderFor nodes) := by
  have added := Adds.alloc wellFormed (.element (QName.ofTerm Term.placeholder) [])
  have empty := branch_alloc wellFormed (.element (QName.ofTerm Term.placeholder) [])
  rw [addPlaceholder, Node.placeholderFor]
  rcases wellFormed.firstFormatting?_agrees below with
    ⟨none, none'⟩ | ⟨formatting, node, isFormatting, isNode, isBelow, used⟩
  · rw [none, none']
    exact empty
  · rw [isFormatting, isNode]
    simp only [added.wellFormed.duplicate_eq]
    rcases adds_graft
      ((store.alloc (.element (QName.ofTerm Term.placeholder) [])).1.branch formatting)
      added.wellFormed with ⟨copied, copy⟩
    refine (added.trans copied).branch_append.trans ?_
    rw [copied.branch_eq added.wellFormed (added.inRange _ List.mem_cons_self), empty, copy,
      added.branch_eq wellFormed used, isBelow]
    rfl

/-! ## The document with the placeholder -/

/-- New nodes do not change where child indexes lead to from a node from before. -/
theorem Adds.follow?_eq (adds : Adds store after tops) (wellFormed : store.WellFormed)
    (used : top < store.size) : after.follow? top path = store.follow? top path := by
  induction path generalizing top with
  | nil => rfl
  | cons index rest ih =>
      have same : after.children top = store.children top :=
        congrArg Slot.children (adds.kept top used)
      rw [follow?, follow?, same]
      cases step : (store.children top)[index]? with
      | none => rfl
      | some child => exact ih (wellFormed.childInRange top child (List.mem_of_getElem? step))

/-- What is between two markers is what is between them in the document. -/
theorem map_branch_between {siblings : List NodeId} {nodes : List Node}
    (below : siblings.map store.branch = Branch.ofNodes nodes) (places : MarkerPair) :
    ((siblings.take places.last).drop (places.first + 1)).map store.branch =
      Branch.ofNodes (places.between nodes) := by
  rw [List.map_drop, List.map_take, below, MarkerPair.between, Branch.ofNodes_eq_map,
    Branch.ofNodes_eq_map, List.map_drop, List.map_take]

/-- The children of the parent, after the replacement, are those of the document. -/
theorem WellFormed.map_branch_besidePlaceholder (wellFormed : store.WellFormed)
    {places : MarkerPair} {siblings : List NodeId} {nodes : List Node} {placeholder : NodeId}
    (below : siblings.map store.branch = Branch.ofNodes nodes) (adds : Adds store after tops)
    (used : ∀ id ∈ siblings, id < store.size)
    (isBelow : after.branch placeholder = .ofNode (Node.placeholderFor (places.between nodes))) :
    (store.besidePlaceholder siblings places.first places.last placeholder).map after.branch =
      Branch.ofNodes (Node.replaceBetween places nodes) := by
  have kept : ∀ {ids : List NodeId}, ids ⊆ siblings →
      ids.map after.branch = ids.map store.branch := fun part =>
    adds.map_branch_eq wellFormed fun id member => used id (part member)
  have front : (siblings.take (places.first + 1)).map store.branch =
      Branch.ofNodes (nodes.take (places.first + 1)) := by
    rw [List.map_take, below, Branch.ofNodes_eq_map, Branch.ofNodes_eq_map, List.map_take]
  have back : (siblings.drop places.last).map store.branch =
      Branch.ofNodes (nodes.drop places.last) := by
    rw [List.map_drop, below, Branch.ofNodes_eq_map, Branch.ofNodes_eq_map, List.map_drop]
  have inside := (map_branch_filter wellFormed Label.outlivesReplacement
    (map_branch_between below places)).1
  have part : (((siblings.take places.last).drop (places.first + 1)).filter fun id =>
      (store.label id).outlivesReplacement) ⊆ siblings := fun id member =>
    List.mem_of_mem_take (List.mem_of_mem_drop (List.mem_of_mem_filter member))
  rw [besidePlaceholder, Node.replaceBetween, List.map_append, List.map_append, List.map_cons,
    kept (List.take_subset _ _), kept (List.drop_subset _ _), kept part, front, back, inside,
    isBelow]
  simp only [Branch.ofNodes_append, Branch.ofNodes]
  rfl

/-- A store goes on representing its document while nodes are added. -/
theorem Adds.represents (adds : Adds store after tops) (represents : store.Represents document) :
    after.Represents document := by
  refine ⟨⟨adds.wellFormed, ?_, ?_⟩, ?_⟩ <;> rw [adds.root_eq]
  · exact Nat.lt_of_lt_of_le represents.rootInRange adds.grows
  · rw [parent?, adds.kept _ represents.rootInRange]
    exact represents.rootDetached
  · rw [adds.branch_eq represents.toWellFormed represents.rootInRange, represents.branch_root]

/-- Other children for a parent are a change at the position of this in the document. -/
theorem Represents.setChildren (represents : store.Represents document)
    (adopts : store.Adopts parent children) {change : Node → Node} {target : Node}
    (reached : store.follow? store.root path = some parent)
    (found : document.at? path = some target)
    (changed : (store.setChildren parent children).branch parent = .ofNode (change target)) :
    (store.setChildren parent children).Represents (document.updateAt change path) := by
  have wellFormed := represents.toWellFormed
  -- The root is above the parent, so it is none of the children that this gets or loses.
  have notNew := fun member =>
    adopts.apart store.root member (wellFormed.below_of_follow? reached)
  have notOld : store.root ∉ store.children parent := fun member => by
    have linked := (wellFormed.linked _ _).1 member
    rw [represents.rootDetached] at linked
    cases linked
  refine ⟨⟨wellFormed.setChildren adopts, ?_, ?_⟩, ?_⟩ <;> rw [root_setChildren]
  · rw [size_setChildren]
    exact represents.rootInRange
  · rw [wellFormed.parent?_setChildren adopts.inRange, if_neg notNew, if_neg notOld,
      represents.rootDetached]
  · exact wellFormed.branch_setChildren_at adopts represents.branch_root reached found changed

/-- A store in which what is between two markers has been replaced represents the document with a
placeholder there. -/
theorem Represents.replaceRange (represents : store.Represents document) {pair : StorePair}
    {places : MarkerPair} (pairAt : store.PairAt pair places) :
    ∃ after placeholder, store.replaceRange pair = some (after, placeholder) ∧
      after.Represents (document.putPlaceholder places) := by
  have wellFormed := represents.toWellFormed
  have isStart := idxOf?_of_getElem? (wellFormed.nodup _) pairAt.first
  have isStop := idxOf?_of_getElem? (wellFormed.nodup _) pairAt.last
  rcases wellFormed.replaceRange_of_places isStart isStop places.first_lt_last with
    ⟨added, placeholder, isAdded, replaced, adds, adopts⟩
  rcases represents.at?_of_follow? pairAt.parent with ⟨node, found, below⟩
  have siblings := wellFormed.map_branch_children below
  have isBelow := wellFormed.branch_addPlaceholder (map_branch_between siblings places)
  rw [isAdded] at isBelow
  have children := wellFormed.map_branch_besidePlaceholder siblings adds
    (wellFormed.childInRange pair.parent) isBelow
  have reached : added.follow? added.root places.parent = some pair.parent := by
    rw [adds.root_eq, adds.follow?_eq wellFormed represents.rootInRange, pairAt.parent]
  refine ⟨_, placeholder, replaced,
    (adds.represents represents).setChildren adopts reached found ?_⟩
  have used := lt_size_of_mem_children (List.mem_of_getElem? pairAt.first)
  have label : added.label pair.parent = node.label :=
    (congrArg Slot.label (adds.kept _ used)).trans (wellFormed.label_eq below)
  rw [adds.wellFormed.branch_setChildren_self adopts, label, children]
  cases node with
  | element name attrs nodes => rfl
  | text | comment =>
      have none := List.map_eq_nil_iff.1 siblings
      rw [none] at isStart
      cases isStart

end NodeStore

end TemplateFill
