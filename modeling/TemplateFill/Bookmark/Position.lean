import TemplateFill.Markup.Node

/-!
# Positions in a document

A position is the list of child indexes that lead from the root to a node.  Positions are
listed in document order, a node before what is below it.
-/

namespace TemplateFill

/-- The child indexes from the root to a node; the root is at the empty path. -/
abbrev Path := List Nat

namespace Node

mutual

/-- The nodes below a node with their positions, in document order. -/
def placed : Node → List (Path × Node)
  | .element _ _ children => placedFrom 0 children
  | _ => []

/-- Siblings, the first one at `index`, and the nodes below them, with their positions. -/
def placedFrom (index : Nat) : List Node → List (Path × Node)
  | [] => []
  | node :: rest =>
      ([index], node) :: (placed node).map (fun inner => (index :: inner.1, inner.2)) ++
        placedFrom (index + 1) rest

end

/-- The node at a position. -/
def at? (node : Node) : Path → Option Node
  | [] => some node
  | index :: rest => node.children[index]?.bind fun child => child.at? rest

/-- The nodes above a position, the root first. -/
def enclosing (node : Node) : Path → List Node
  | [] => []
  | index :: rest =>
      node :: node.children[index]?.elim [] fun child => child.enclosing rest

/-- Change the node at a position. -/
def updateAt (change : Node → Node) (node : Node) : Path → Node
  | [] => change node
  | index :: rest =>
      node.mapChildren fun children =>
        children.modify index fun child => child.updateAt change rest

/-- The first node below the root with a property, and its position. -/
def findPlaced? (root : Node) (accept : Node → Bool) : Option (Path × Node) :=
  root.placed.find? fun place => accept place.2

mutual

/-- Forgetting the positions leaves the descendants. -/
theorem placed_map_snd : ∀ node : Node, node.placed.map (·.2) = node.descendants
  | .element _ _ children => by
      simp only [placed, descendants, placedFrom_map_snd 0 children]
  | .text _ => rfl
  | .comment _ => rfl

theorem placedFrom_map_snd :
    ∀ (index : Nat) (nodes : List Node),
      (placedFrom index nodes).map (·.2) = descendantsOfAll nodes
  | _, [] => rfl
  | index, node :: rest => by
      have inner := placed_map_snd node
      have outer := placedFrom_map_snd (index + 1) rest
      simp only [placedFrom, descendantsOfAll, List.cons_append, List.map_cons,
        List.map_append, List.map_map, Function.comp_def, inner, outer]

end

end Node

end TemplateFill
