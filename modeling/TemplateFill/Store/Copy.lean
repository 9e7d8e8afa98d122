import TemplateFill.Store.Walk

/-!
# Copies

A branch is added to a store node by node in preorder, so that its nodes get consecutive
ids and its top gets the first of them.  Whole documents are added that way, and subtrees are
copied in the same order.
-/

namespace TemplateFill

namespace NodeStore

mutual

/-- Add a branch, detached; the id is that of its top. -/
def graft (store : NodeStore) : Branch → NodeStore × NodeId
  | .mk label children =>
      let added := store.alloc label
      (added.1.graftBelow added.2 children, added.2)

/-- Add branches as the last children of `parent`. -/
def graftBelow (store : NodeStore) (parent : NodeId) : List Branch → NodeStore
  | [] => store
  | branch :: rest =>
      let added := store.graft branch
      (added.1.append parent added.2).graftBelow parent rest

end

/-- Copy a node of `source` without its children into the store, detached. -/
def copyFrom (store source : NodeStore) (id : NodeId) : NodeStore × NodeId :=
  store.alloc (source.label id)

/-- Copy a node of `source` with what is below it, down to `depth` levels, into a store: first the
node, then each of its children, which is put below the copy before the next one is copied. -/
def importTo (source : NodeStore) : (depth : Nat) → NodeStore → NodeId → NodeStore × NodeId
  | 0, store, id => store.copyFrom source id
  | depth + 1, store, id =>
      let added := store.copyFrom source id
      let filled := (source.children id).foldl (fun store child =>
        let copy := source.importTo depth store child
        copy.1.append added.2 copy.2) added.1
      (filled, added.2)

/-- Copy the subtree of a node of `source` into the store, detached. -/
def importFrom (store source : NodeStore) (id : NodeId) : NodeStore × NodeId :=
  source.importTo source.size store id

/-- Copy a node with what is below it, down to `depth` levels, within a store.  What is to be
copied is read from the store as it is by then, with the copies made so far in it. -/
def duplicateTo : (depth : Nat) → NodeStore → NodeId → NodeStore × NodeId
  | 0, store, id => store.alloc (store.label id)
  | depth + 1, store, id =>
      let added := store.alloc (store.label id)
      let filled := (added.1.children id).foldl (fun store child =>
        let copy := duplicateTo depth store child
        copy.1.append added.2 copy.2) added.1
      (filled, added.2)

/-- Copy the subtree of a node within the store, detached. -/
def duplicate (store : NodeStore) (id : NodeId) : NodeStore × NodeId :=
  duplicateTo store.size store id

/-- The store of a document; its root has the id 0. -/
def ofNode (root : Node) : NodeStore := (empty.graft (Branch.ofNode root)).1

end NodeStore

end TemplateFill
