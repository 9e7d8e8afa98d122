import TemplateFill.Markup.Vocabulary
import TemplateFill.Markup.Node

/-!
# Node stores

A store keeps nodes under ids, numbered in the order in which they were added.  Every node
has a label, a parent link and a list of child links; the operations keep both kinds of
link in step as long as a node is detached before it is put somewhere else.
-/

namespace TemplateFill

/-- The number of a node in its store.  It is not bounded here; where ids are kept in 32 bits, a
store fits if it has at most `2 ^ 32` nodes. -/
abbrev NodeId := Nat

/-- A stored node: its label and its links. -/
structure Slot where
  label : Label
  parent : Option NodeId
  children : List NodeId
  deriving DecidableEq, Repr, Inhabited

/-- Nodes with links between them, and the id of the root. -/
structure NodeStore where
  slots : Array Slot
  root : NodeId
  deriving DecidableEq, Repr

namespace NodeStore

/-- The store without nodes.  The first node to be added is its root. -/
def empty : NodeStore := ⟨#[], 0⟩

/-- The number of nodes, which is the id of the next one. -/
def size (store : NodeStore) : Nat := store.slots.size

/-- The node with an id; an id that is not in use has an unlinked one. -/
def slot (store : NodeStore) (id : NodeId) : Slot := store.slots[id]?.getD default

/-- The label of a node. -/
def label (store : NodeStore) (id : NodeId) : Label := (store.slot id).label

/-- The node that has this node as a child. -/
def parent? (store : NodeStore) (id : NodeId) : Option NodeId := (store.slot id).parent

/-- The children of a node in order. -/
def children (store : NodeStore) (id : NodeId) : List NodeId := (store.slot id).children

/-- Change one node. -/
def update (store : NodeStore) (id : NodeId) (change : Slot → Slot) : NodeStore :=
  { store with slots := store.slots.modify id change }

/-- Change the parent link of a node. -/
def setParent (store : NodeStore) (parent : Option NodeId) (id : NodeId) : NodeStore :=
  store.update id fun slot => { slot with parent := parent }

/-- Change the child links of a node. -/
def updateChildren (store : NodeStore) (id : NodeId)
    (change : List NodeId → List NodeId) : NodeStore :=
  store.update id fun slot => { slot with children := change slot.children }

/-- Make a node the root. -/
def setRoot (store : NodeStore) (id : NodeId) : NodeStore := { store with root := id }

/-- Add a detached node; it gets the next id. -/
def alloc (store : NodeStore) (label : Label) : NodeStore × NodeId :=
  ({ store with slots := store.slots.push ⟨label, none, []⟩ }, store.size)

/-- Make a detached node the last child of `parent`. -/
def append (store : NodeStore) (parent child : NodeId) : NodeStore :=
  (store.setParent (some parent) child).updateChildren parent (· ++ [child])

/-- Give `parent` other children; children that it does not keep become detached. -/
def setChildren (store : NodeStore) (parent : NodeId) (children : List NodeId) : NodeStore :=
  let orphaned := (store.children parent).foldl (setParent · none) store
  let adopted := children.foldl (setParent · (some parent)) orphaned
  adopted.updateChildren parent fun _ => children

/-- A list with `value` behind the first `sibling`, or at the end if there is none. -/
def insertBehind (sibling value : NodeId) : List NodeId → List NodeId
  | [] => [value]
  | first :: rest =>
      if first = sibling then first :: value :: rest
      else first :: insertBehind sibling value rest

/-- Put a detached node behind `sibling`.  Without a parent nothing has a place behind it. -/
def insertAfter (store : NodeStore) (sibling id : NodeId) : NodeStore :=
  match store.parent? sibling with
  | none => store
  | some parent =>
      (store.setParent (some parent) id).updateChildren parent (insertBehind sibling id)

/-- Take a node out of its parent's children.  It stays in the store. -/
def detach (store : NodeStore) (id : NodeId) : NodeStore :=
  match store.parent? id with
  | none => store
  | some parent => (store.setParent none id).updateChildren parent (·.filter (· ≠ id))

/-- How a vocabulary word is written in the document below the root. -/
def spell (store : NodeStore) (term : Term) : QName :=
  term.spelled (store.label store.root).attrs

/-- Declare `ns` at the root, unless it is declared there or the root is no element. -/
def declare (store : NodeStore) (ns qualifier : String) : NodeStore :=
  store.update store.root fun slot =>
    match slot.label with
    | .element name attrs =>
        { slot with label := .element name (declareNamespace attrs ns qualifier) }
    | _ => slot

@[simp] theorem size_empty : empty.size = 0 := rfl

@[simp] theorem size_update (store : NodeStore) (id : NodeId) (change : Slot → Slot) :
    (store.update id change).size = store.size := by
  simp [update, size]

@[simp] theorem size_setParent (store : NodeStore) (parent : Option NodeId) (id : NodeId) :
    (store.setParent parent id).size = store.size := size_update ..

@[simp] theorem size_updateChildren (store : NodeStore) (id : NodeId)
    (change : List NodeId → List NodeId) :
    (store.updateChildren id change).size = store.size := size_update ..

@[simp] theorem size_alloc (store : NodeStore) (label : Label) :
    (store.alloc label).1.size = store.size + 1 := by
  simp [alloc, size]

@[simp] theorem size_append (store : NodeStore) (parent child : NodeId) :
    (store.append parent child).size = store.size := by
  simp [append]

/-- Changing one node leaves the others alone. -/
theorem slot_update_of_ne {store : NodeStore} {id other : NodeId} {change : Slot → Slot}
    (distinct : other ≠ id) : (store.update id change).slot other = store.slot other := by
  simp [update, slot, Array.getElem?_modify, Ne.symm distinct]

/-- A changed node has been changed as told. -/
theorem slot_update_self {store : NodeStore} {id : NodeId} {change : Slot → Slot}
    (used : id < store.size) : (store.update id change).slot id = change (store.slot id) := by
  have bound : id < store.slots.size := used
  simp [update, slot, bound, Array.getElem_modify_self]

end NodeStore

end TemplateFill
