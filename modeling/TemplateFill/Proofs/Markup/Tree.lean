import TemplateFill.Markup.Node

/-!
# Properties of all nodes of a document

A tree is taken apart at its root: what holds of every node, of every label or of every pair
of a parent and a child holds of the root and, again, of each of its children.
-/

namespace TemplateFill.Node

/-- Induction over a tree: an element follows from all of its children. -/
@[elab_as_elim]
theorem treeInduction {motive : Node → Prop}
    (element : ∀ name attrs children, (∀ child ∈ children, motive child) →
      motive (.element name attrs children))
    (text : ∀ content, motive (.text content))
    (comment : ∀ content, motive (.comment content)) : ∀ node, motive node := by
  have none : ∀ child ∈ ([] : List Node), motive child := fun _ member => nomatch member
  have more : ∀ first rest, motive first → (∀ child ∈ rest, motive child) →
      ∀ child ∈ first :: rest, motive child := by
    intro first rest holds others
    exact List.forall_mem_cons.2 ⟨holds, others⟩
  exact @Node.rec motive (fun nodes => ∀ child ∈ nodes, motive child) element text comment none more

@[simp] theorem kind_element (name : QName) (attrs : List Attr) (children : List Node) :
    (element name attrs children).kind = name.kind := rfl

@[simp] theorem kind_text (content : String) : (text content).kind = .charData := rfl

@[simp] theorem kind_comment (content : String) : (comment content).kind = .charData := rfl

@[simp] theorem children_element (name : QName) (attrs : List Attr) (children : List Node) :
    (element name attrs children).children = children := rfl

@[simp] theorem label_element (name : QName) (attrs : List Attr) (children : List Node) :
    (element name attrs children).label = .element name attrs := rfl

theorem attrs_element (name : QName) (attrs : List Attr) (children : List Node) :
    (element name attrs children).attrs = attrs := rfl

theorem kind_eq_of_label_eq {left right : Node} (equal : left.label = right.label) :
    left.kind = right.kind := congrArg Label.kind equal

theorem any_congr_of_mem {left right : Node → Bool} {nodes : List Node}
    (each : ∀ node ∈ nodes, left node = right node) : nodes.any left = nodes.any right := by
  induction nodes with
  | nil => rfl
  | cons node rest ih =>
      rw [List.forall_mem_cons] at each
      rw [List.any_cons, List.any_cons, each.1, ih each.2]

theorem descendantsOfAll_eq_flatMap (nodes : List Node) :
    descendantsOfAll nodes = nodes.flatMap selfAndDescendants := by
  induction nodes with
  | nil => rfl
  | cons node rest ih => simp [descendantsOfAll, selfAndDescendants, ih]

/-- A node stands at or below siblings when it stands at or below one of them. -/
@[simp] theorem mem_descendantsOfAll {inner : Node} {nodes : List Node} :
    inner ∈ descendantsOfAll nodes ↔ ∃ node ∈ nodes, inner ∈ node.selfAndDescendants := by
  rw [descendantsOfAll_eq_flatMap, List.mem_flatMap]

@[simp] theorem descendants_element (name : QName) (attrs : List Attr) (children : List Node) :
    (element name attrs children).descendants = descendantsOfAll children := rfl

theorem self_mem_selfAndDescendants (node : Node) : node ∈ node.selfAndDescendants :=
  List.mem_cons_self

theorem mem_selfAndDescendants_element {inner : Node} {name : QName} {attrs : List Attr}
    {children : List Node} :
    inner ∈ (element name attrs children).selfAndDescendants ↔
      inner = element name attrs children ∨
        ∃ child ∈ children, inner ∈ child.selfAndDescendants := by
  rw [selfAndDescendants, List.mem_cons, descendants_element, mem_descendantsOfAll]

/-- Nodes without children are all that is at or below them. -/
theorem mem_selfAndDescendants_of_childless {inner node : Node}
    (childless : node.descendants = []) : inner ∈ node.selfAndDescendants ↔ inner = node := by
  rw [selfAndDescendants, childless, List.mem_singleton]

theorem mem_selfAndDescendants_child {root outer child : Node}
    (member : outer ∈ root.selfAndDescendants) (isChild : child ∈ outer.children) :
    child ∈ root.selfAndDescendants := by
  induction root using treeInduction with
  | element name attrs children ih =>
      rw [mem_selfAndDescendants_element] at member ⊢
      right
      rcases member with rfl | ⟨node, among, below⟩
      · exact ⟨child, isChild, self_mem_selfAndDescendants child⟩
      · exact ⟨node, among, ih node among below⟩
  | text | comment =>
      rw [mem_selfAndDescendants_of_childless rfl] at member
      rw [member] at isChild
      cases isChild

/-! ## Labels -/

/-- Every label of a tree has a property. -/
def EveryLabel (property : Label → Prop) (node : Node) : Prop :=
  ∀ inner ∈ node.selfAndDescendants, property inner.label

instance (property : Label → Prop) [DecidablePred property] (node : Node) :
    Decidable (EveryLabel property node) :=
  inferInstanceAs (Decidable (∀ inner ∈ node.selfAndDescendants, property inner.label))

section EveryLabel

variable {property : Label → Prop}

theorem everyLabel_element {name : QName} {attrs : List Attr} {children : List Node} :
    EveryLabel property (.element name attrs children) ↔
      property (.element name attrs) ∧ ∀ child ∈ children, EveryLabel property child := by
  constructor
  · intro every
    refine ⟨every _ (self_mem_selfAndDescendants _), ?_⟩
    intro child member inner below
    exact every inner (mem_selfAndDescendants_element.2 (.inr ⟨child, member, below⟩))
  · rintro ⟨top, every⟩ inner member
    rcases mem_selfAndDescendants_element.1 member with rfl | ⟨child, among, below⟩
    · exact top
    · exact every child among inner below

theorem everyLabel_text {content : String} :
    EveryLabel property (.text content) ↔ property (.text content) := by
  simp [EveryLabel, selfAndDescendants, descendants, label]

theorem everyLabel_comment {content : String} :
    EveryLabel property (.comment content) ↔ property (.comment content) := by
  simp [EveryLabel, selfAndDescendants, descendants, label]

theorem EveryLabel.self {node : Node} (every : EveryLabel property node) : property node.label :=
  every node (self_mem_selfAndDescendants node)

theorem EveryLabel.child {node child : Node} (every : EveryLabel property node)
    (member : child ∈ node.children) : EveryLabel property child := by
  cases node with
  | element name attrs children => exact (everyLabel_element.1 every).2 child member
  | text | comment => cases member

theorem everyLabel_child_of_descendants {node : Node}
    (every : ∀ inner ∈ node.descendants, property inner.label) :
    ∀ child ∈ node.children, EveryLabel property child := by
  intro child member inner below
  apply every
  cases node with
  | element name attrs children => exact mem_descendantsOfAll.2 ⟨child, member, below⟩
  | text | comment => cases member

end EveryLabel

/-! ## Pairs of a parent and a child -/

/-- The kinds of every parent and child in a tree are allowed together. -/
def EveryEdge (allowed : Kind → Kind → Prop) (node : Node) : Prop :=
  ∀ outer ∈ node.selfAndDescendants, ∀ child ∈ outer.children, allowed outer.kind child.kind

/-- The kinds of siblings are allowed below a parent of kind `outer`, and so are all kinds
below them. -/
def EdgesBelow (allowed : Kind → Kind → Prop) (outer : Kind) (nodes : List Node) : Prop :=
  ∀ node ∈ nodes, allowed outer node.kind ∧ EveryEdge allowed node

section EveryEdge

variable {allowed : Kind → Kind → Prop}

theorem everyEdge_element {name : QName} {attrs : List Attr} {children : List Node} :
    EveryEdge allowed (.element name attrs children) ↔
      EdgesBelow allowed name.kind children := by
  constructor
  · intro every child member
    refine ⟨every _ (self_mem_selfAndDescendants _) child member, ?_⟩
    intro outer below
    exact every outer (mem_selfAndDescendants_element.2 (.inr ⟨child, member, below⟩))
  · intro below outer member
    rcases mem_selfAndDescendants_element.1 member with rfl | ⟨child, among, inside⟩
    · exact fun inner isChild => (below inner isChild).1
    · exact (below child among).2 outer inside

theorem everyEdge_text {content : String} : EveryEdge allowed (.text content) := by
  simp [EveryEdge, selfAndDescendants, descendants, children]

theorem everyEdge_comment {content : String} : EveryEdge allowed (.comment content) := by
  simp [EveryEdge, selfAndDescendants, descendants, children]

theorem EveryEdge.mono {weaker : Kind → Kind → Prop} {node : Node} (edges : EveryEdge allowed node)
    (implies : ∀ outer inner, allowed outer inner → weaker outer inner) : EveryEdge weaker node :=
  fun outer member child isChild => implies _ _ (edges outer member child isChild)

theorem edgesBelow_append {outer : Kind} {left right : List Node} :
    EdgesBelow allowed outer (left ++ right) ↔
      EdgesBelow allowed outer left ∧ EdgesBelow allowed outer right := by
  simp only [EdgesBelow, List.forall_mem_append]

theorem edgesBelow_cons {outer : Kind} {node : Node} {rest : List Node} :
    EdgesBelow allowed outer (node :: rest) ↔
      (allowed outer node.kind ∧ EveryEdge allowed node) ∧ EdgesBelow allowed outer rest := by
  simp only [EdgesBelow, List.forall_mem_cons]

end EveryEdge

end TemplateFill.Node
