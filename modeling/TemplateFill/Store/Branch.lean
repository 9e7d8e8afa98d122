import TemplateFill.Markup.Node

/-!
# Branches

A branch is a label with branches below it, whatever the label is.  Document trees are
branches in which only elements have anything below them.
-/

namespace TemplateFill

/-- A label with everything below it. -/
inductive Branch where
  | mk (label : Label) (children : List Branch)
  deriving Repr, Inhabited

namespace Branch

/-- The label at the top. -/
def label : Branch → Label
  | mk label _ => label

/-- The branches directly below the top. -/
def children : Branch → List Branch
  | mk _ children => children

mutual

/-- The branch that a document tree is. -/
def ofNode : Node → Branch
  | .element name attrs children => mk (.element name attrs) (ofNodes children)
  | .text content => mk (.text content) []
  | .comment content => mk (.comment content) []

/-- The branches that siblings are. -/
def ofNodes : List Node → List Branch
  | [] => []
  | node :: rest => ofNode node :: ofNodes rest

end

mutual

/-- The document tree of a branch, without what is below texts and comments. -/
def toNode : Branch → Node
  | mk (.element name attrs) children => .element name attrs (toNodes children)
  | mk (.text content) _ => .text content
  | mk (.comment content) _ => .comment content

/-- The document trees of branches. -/
def toNodes : List Branch → List Node
  | [] => []
  | branch :: rest => toNode branch :: toNodes rest

end

mutual

/-- The labels of a branch at `depth`, in preorder, with their depths. -/
def outlineFrom (depth : Nat) : Branch → List (Nat × Label)
  | mk label children => (depth, label) :: outlineOfAll (depth + 1) children

/-- The labels of branches side by side at `depth`. -/
def outlineOfAll (depth : Nat) : List Branch → List (Nat × Label)
  | [] => []
  | branch :: rest => outlineFrom depth branch ++ outlineOfAll depth rest

end

/-- The labels of a branch, in preorder, with their depths. -/
def outline (branch : Branch) : List (Nat × Label) := outlineFrom 0 branch

mutual

/-- A document tree is got back from its branch. -/
@[simp] theorem toNode_ofNode : ∀ node : Node, toNode (ofNode node) = node
  | .element name attrs children => by simp [ofNode, toNode, toNodes_ofNodes children]
  | .text _ => rfl
  | .comment _ => rfl

@[simp] theorem toNodes_ofNodes : ∀ nodes : List Node, toNodes (ofNodes nodes) = nodes
  | [] => rfl
  | node :: rest => by simp [ofNodes, toNodes, toNode_ofNode node, toNodes_ofNodes rest]

end

mutual

/-- A document tree and its branch have the same outline. -/
theorem outlineFrom_ofNode :
    ∀ (depth : Nat) (node : Node), outlineFrom depth (ofNode node) = node.outlineFrom depth
  | depth, .element name attrs children => by
      simp [ofNode, outlineFrom, Node.outlineFrom, outlineOfAll_ofNodes (depth + 1) children]
  | _, .text _ => by simp [ofNode, outlineFrom, outlineOfAll, Node.outlineFrom]
  | _, .comment _ => by simp [ofNode, outlineFrom, outlineOfAll, Node.outlineFrom]

theorem outlineOfAll_ofNodes :
    ∀ (depth : Nat) (nodes : List Node),
      outlineOfAll depth (ofNodes nodes) = Node.outlineOfAll depth nodes
  | _, [] => by simp [ofNodes, outlineOfAll, Node.outlineOfAll]
  | depth, node :: rest => by
      simp [ofNodes, outlineOfAll, Node.outlineOfAll, outlineFrom_ofNode depth node,
        outlineOfAll_ofNodes depth rest]

end

end Branch

end TemplateFill
