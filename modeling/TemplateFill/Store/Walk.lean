import TemplateFill.Store.Basic
import TemplateFill.Store.Branch

/-!
# Walks through a store

The subtree of a node, its descendants in document order and its ancestors.  Every walk needs a
bound, and the number of nodes is one as long as the links have no cycle.
-/

namespace TemplateFill

/-- What an iterator yields in its first `limit` steps. -/
def valuesOf {σ α : Type} (next? : σ → Option (α × σ)) : (limit : Nat) → σ → List α
  | 0, _ => []
  | limit + 1, state =>
      match next? state with
      | none => []
      | some (value, next) => value :: valuesOf next? limit next

namespace NodeStore

/-- What is at and below a node, down to `depth` levels. -/
def branchTo (store : NodeStore) : (depth : Nat) → NodeId → Branch
  | 0, id => .mk (store.label id) []
  | depth + 1, id => .mk (store.label id) ((store.children id).map (store.branchTo depth))

/-- What is at and below a node. -/
def branch (store : NodeStore) (id : NodeId) : Branch := store.branchTo store.size id

/-- One step down: the node that stands first on the stack is visited, and its children go in
front of the others. -/
def nextBelow? (store : NodeStore) : List NodeId → Option (NodeId × List NodeId)
  | [] => none
  | id :: rest => some (id, store.children id ++ rest)

/-- The nodes below a node in document order. -/
def descendants (store : NodeStore) (id : NodeId) : List NodeId :=
  valuesOf store.nextBelow? store.size (store.children id)

/-- One step up: the node that is held is visited, and its parent is held then. -/
def nextAbove? (store : NodeStore) : Option NodeId → Option (NodeId × Option NodeId)
  | none => none
  | some id => some (id, store.parent? id)

/-- The nodes above a node, the nearest first. -/
def ancestors (store : NodeStore) (id : NodeId) : List NodeId :=
  valuesOf store.nextAbove? store.size (store.parent? id)

/-- The texts below a node, one after the other; a text is its own content. -/
def textContent (store : NodeStore) (id : NodeId) : String :=
  match (store.label id).text? with
  | some content => content
  | none => String.join ((store.descendants id).filterMap fun inner => (store.label inner).text?)

/-- The labels at and below a node, in preorder, with their depths. -/
def outline (store : NodeStore) (id : NodeId) : List (Nat × Label) := (store.branch id).outline

/-- The document tree at a node. -/
def toNode (store : NodeStore) (id : NodeId) : Node := (store.branch id).toNode

end NodeStore

end TemplateFill
