import TemplateFill.Proofs.Bookmark.Group

/-!
# The shape of the flat form

A document in the flat form has nothing but properties in its paragraph marks.  Flattening
always gets there, and keeps the labels and the block-level nodes of a document.
-/

namespace TemplateFill.Node

theorem flattenAll_eq_flatMap (nodes : List Node) :
    flattenAll nodes = nodes.flatMap flattenNode := by
  induction nodes with
  | nil => simp [flattenAll]
  | cons node rest ih => simp [flattenAll, ih]

theorem mem_flattenAll {nodes : List Node} {flat : Node} :
    flat ∈ flattenAll nodes ↔ ∃ node ∈ nodes, flat ∈ flattenNode node := by
  rw [flattenAll_eq_flatMap, List.mem_flatMap]

theorem flattenNode_paragraph {name : QName} (paragraph : name.kind = .paragraph)
    (attrs : List Attr) (children : List Node) :
    flattenNode (.element name attrs children) =
      flattenAll (children.filter (!·.isParagraphProps)) ++
        [.element name attrs (children.filter isParagraphProps)] := by
  rw [flattenNode, if_pos paragraph, flattenContent_eq]

theorem flattenNode_of_not_paragraph {node : Node} (other : node.isParagraph = false) :
    flattenNode node = [node.flatten] := by
  cases node with
  | element name attrs children =>
      have kind : name.kind ≠ .paragraph := by simpa [isParagraph] using other
      rw [flattenNode, if_neg kind]
      rfl
  | text | comment => simp [flattenNode, flatten, mapChildren]

theorem flatten_element (name : QName) (attrs : List Attr) (children : List Node) :
    (element name attrs children).flatten = .element name attrs (flattenAll children) := rfl

theorem children_flatten (root : Node) : root.flatten.children = flattenAll root.children := by
  cases root <;> rfl

@[simp] theorem label_flatten (node : Node) : node.flatten.label = node.label := by
  cases node <;> rfl

@[simp] theorem kind_flatten (node : Node) : node.flatten.kind = node.kind :=
  kind_eq_of_label_eq (label_flatten node)

/-! ## What stands for a node -/

/-- What stands for a node in the flat form is the mark of a paragraph, stands for something in a
paragraph, or is a node whose own children have been flattened. -/
@[elab_as_elim]
theorem flattenNode_induction {motive : Node → Node → Prop}
    (content : ∀ {name : QName} {attrs : List Attr} {children : List Node} {child flat : Node},
      name.kind = .paragraph → child ∈ children → child.isParagraphProps = false →
        flat ∈ flattenNode child → motive child flat → motive (.element name attrs children) flat)
    (mark : ∀ {name : QName} {attrs : List Attr} {children : List Node}, name.kind = .paragraph →
      motive (.element name attrs children)
        (.element name attrs (children.filter isParagraphProps)))
    (container : ∀ {name : QName} {attrs : List Attr} {children : List Node},
      name.kind ≠ .paragraph →
        (∀ child ∈ children, ∀ flat ∈ flattenNode child, motive child flat) →
          motive (.element name attrs children) (.element name attrs (flattenAll children)))
    (leaf : ∀ {node : Node}, node.isElement = false → motive node node) {node flat : Node}
    (member : flat ∈ flattenNode node) : motive node flat := by
  induction node using treeInduction generalizing flat with
  | element name attrs children ih =>
      by_cases paragraph : name.kind = .paragraph
      · rw [flattenNode_paragraph paragraph, List.mem_append, List.mem_singleton] at member
        rcases member with inside | rfl
        · rcases mem_flattenAll.1 inside with ⟨child, among, isFlat⟩
          rcases List.mem_filter.1 among with ⟨isChild, other⟩
          exact content paragraph isChild (by simpa using other) isFlat (ih child isChild isFlat)
        · exact mark paragraph
      · rw [flattenNode, if_neg paragraph, List.mem_singleton] at member
        rw [member]
        exact container paragraph fun child among flat isFlat => ih child among isFlat
  | text | comment =>
      rw [flattenNode, List.mem_singleton] at member
      rw [member]
      exact leaf rfl

/-! ## Labels -/

theorem everyLabel_flattenNode {property : Label → Prop} {node : Node}
    (every : EveryLabel property node) : ∀ flat ∈ flattenNode node, EveryLabel property flat := by
  intro flat member
  revert every
  refine flattenNode_induction ?content ?mark ?container ?leaf member
  case content => exact fun _ among _ _ inner every => inner (every.child among)
  case mark =>
    intro name attrs children _ every
    refine everyLabel_element.2 ⟨every.self, fun child among => ?_⟩
    exact every.child (List.mem_filter.1 among).1
  case container =>
    intro name attrs children _ inner every
    refine everyLabel_element.2 ⟨every.self, fun flat among => ?_⟩
    rcases mem_flattenAll.1 among with ⟨child, isChild, isFlat⟩
    exact inner child isChild flat isFlat (every.child isChild)
  case leaf => exact fun _ every => every

theorem everyLabel_flattenAll {property : Label → Prop} {nodes : List Node}
    (every : ∀ node ∈ nodes, EveryLabel property node) :
    ∀ flat ∈ flattenAll nodes, EveryLabel property flat := by
  intro flat member
  rcases mem_flattenAll.1 member with ⟨node, among, isFlat⟩
  exact everyLabel_flattenNode (every node among) flat isFlat

theorem everyLabel_children_flatten {property : Label → Prop} {root : Node}
    (every : ∀ child ∈ root.children, EveryLabel property child) :
    ∀ flat ∈ root.flatten.children, EveryLabel property flat := by
  rw [children_flatten]
  exact everyLabel_flattenAll every

theorem everyLabel_flatten {property : Label → Prop} {node : Node}
    (every : EveryLabel property node) : EveryLabel property node.flatten := by
  have below := everyLabel_children_flatten fun _ member => every.child member
  cases node with
  | element name attrs children => exact everyLabel_element.2 ⟨every.self, below⟩
  | text | comment => exact every

/-! ## Block-level nodes -/

theorem any_holdsParagraph_flattenNode (node : Node) :
    (flattenNode node).any holdsParagraph = node.holdsParagraph := by
  induction node using treeInduction with
  | element name attrs children ih =>
      have inner : (flattenAll children).any holdsParagraph = children.any holdsParagraph := by
        rw [flattenAll_eq_flatMap, List.any_flatMap]
        exact any_congr_of_mem ih
      by_cases paragraph : name.kind = .paragraph
      · rw [flattenNode_paragraph paragraph]
        simp [holdsParagraph_element, paragraph]
      · rw [flattenNode, if_neg paragraph, List.any_cons, List.any_nil, Bool.or_false,
          holdsParagraph_element, holdsParagraph_element, inner]
  | text | comment => rfl

@[simp] theorem isBlockLevel_flatten (node : Node) :
    node.flatten.isBlockLevel = node.isBlockLevel := by
  cases node with
  | element name attrs children =>
      have inner : (flattenAll children).any holdsParagraph = children.any holdsParagraph := by
        rw [flattenAll_eq_flatMap, List.any_flatMap]
        exact any_congr_of_mem fun child _ => any_holdsParagraph_flattenNode child
      rw [isBlockLevel_eq, isBlockLevel_eq, flatten_element, children_element, children_element,
        inner]
      rfl
  | text | comment => rfl

theorem flattenAll_of_no_paragraph {nodes : List Node}
    (noParagraph : ∀ node ∈ nodes, node.isParagraph = false) :
    flattenAll nodes = nodes.map flatten := by
  induction nodes with
  | nil => rfl
  | cons node rest ih =>
      rcases List.forall_mem_cons.1 noParagraph with ⟨first, others⟩
      rw [flattenAll, flattenNode_of_not_paragraph first, ih others]
      rfl

theorem flattenAll_of_inline {nodes : List Node} (inline : AllInline nodes) :
    flattenAll nodes = nodes.map flatten :=
  flattenAll_of_no_paragraph fun node member => not_isParagraph_of_inline (inline node member)

theorem allInline_map_flatten {nodes : List Node} (inline : AllInline nodes) :
    AllInline (nodes.map flatten) := by
  intro node member
  rcases List.mem_map.1 member with ⟨source, among, rfl⟩
  rw [isBlockLevel_flatten, inline source among]

/-! ## Properties in their places -/

mutual

/-- The nodes below a node, without paragraph properties and what is in them. -/
def outsideProps : Node → List Node
  | .element _ _ children => outsidePropsOfAll children
  | _ => []

/-- Siblings and what is below them, without paragraph properties and what is in them. -/
def outsidePropsOfAll : List Node → List Node
  | [] => []
  | node :: rest =>
      if node.isParagraphProps then outsidePropsOfAll rest
      else node :: (outsideProps node ++ outsidePropsOfAll rest)

end

/-- Properties that are not part of other properties are children of paragraphs below the
root. -/
def PropsInParagraphs (root : Node) : Prop :=
  (∀ child ∈ root.children, child.isParagraphProps = false) ∧
    ∀ inner ∈ root.outsideProps, inner.isParagraph = false →
      ∀ child ∈ inner.children, child.isParagraphProps = false

/-- The same for a sibling and what is below it. -/
private def PropsPlaced (node : Node) : Prop :=
  node.isParagraphProps = false ∧
    ∀ inner ∈ node :: node.outsideProps, inner.isParagraph = false →
      ∀ child ∈ inner.children, child.isParagraphProps = false

theorem mem_outsidePropsOfAll {inner : Node} {nodes : List Node} :
    inner ∈ outsidePropsOfAll nodes ↔
      ∃ child ∈ nodes, child.isParagraphProps = false ∧ inner ∈ child :: child.outsideProps := by
  induction nodes with
  | nil => simp [outsidePropsOfAll]
  | cons node rest ih =>
      rw [outsidePropsOfAll]
      cases isProps : node.isParagraphProps <;> simp [ih, isProps, or_assoc]

private theorem PropsPlaced.child {name : QName} {attrs : List Attr} {children : List Node}
    {child : Node} (placed : PropsPlaced (.element name attrs children)) (member : child ∈ children)
    (other : child.isParagraphProps = false) : PropsPlaced child := by
  refine ⟨other, fun inner below => placed.2 inner (List.mem_cons_of_mem _ ?_)⟩
  exact mem_outsidePropsOfAll.2 ⟨_, member, other, below⟩

/-- A sibling in the flat form: a paragraph mark with nothing but properties in it, or another
node with such siblings below it.  With `strays` properties may also stand on their own, and
then it does not matter what is in them. -/
inductive FlatSibling (strays : Prop) : Node → Prop where
  | mark {name : QName} {attrs : List Attr} {props : List Node} :
      name.kind = .paragraph → (∀ child ∈ props, child.isParagraphProps = true) →
      FlatSibling strays (.element name attrs props)
  | container {name : QName} {attrs : List Attr} {children : List Node} :
      name.kind ≠ .paragraph → name.kind ≠ .paragraphProps →
      (∀ child ∈ children, FlatSibling strays child) →
      FlatSibling strays (.element name attrs children)
  | props {node : Node} : strays → node.isParagraphProps = true → FlatSibling strays node
  | text {content : String} : FlatSibling strays (.text content)
  | comment {content : String} : FlatSibling strays (.comment content)

/-- In a paragraph mark there is nothing but properties. -/
theorem FlatSibling.props_of_mark {strays : Prop} {name : QName} {attrs : List Attr}
    {props : List Node} (flat : FlatSibling strays (.element name attrs props))
    (paragraph : name.kind = .paragraph) : ∀ child ∈ props, child.isParagraphProps = true := by
  cases flat with
  | mark _ allProps => exact allProps
  | container other _ _ => exact absurd paragraph other
  | props _ isProps => simp [isParagraphProps, paragraph] at isProps

private theorem flatSibling_flattenNode {strays : Prop} {node : Node}
    (placed : strays ∨ PropsPlaced node) : ∀ flat ∈ flattenNode node, FlatSibling strays flat := by
  intro flat member
  revert placed
  refine flattenNode_induction ?content ?mark ?container ?leaf member
  case content =>
    intro name attrs children child flat _ among other _ inner placed
    exact inner (placed.imp_right fun fine => fine.child among other)
  case mark =>
    intro name attrs children paragraph _
    exact .mark paragraph fun child among => (List.mem_filter.1 among).2
  case container =>
    intro name attrs children paragraph inner placed
    by_cases isProps : name.kind = .paragraphProps
    · rcases placed with allowed | fine
      · exact .props allowed (by simp [isParagraphProps, isProps])
      · have refused := fine.1
        simp [isParagraphProps, isProps] at refused
    · refine .container paragraph isProps fun flat among => ?_
      rcases mem_flattenAll.1 among with ⟨child, isChild, isFlat⟩
      refine inner child isChild flat isFlat (placed.imp_right fun fine => ?_)
      exact fine.child isChild
        (fine.2 _ List.mem_cons_self (by simpa [isParagraph] using paragraph) child isChild)
  case leaf =>
    intro node noElement _
    cases node with
    | element => cases noElement
    | text => exact .text
    | comment => exact .comment

/-- Flattening reaches the flat form, whatever the document looks like. -/
theorem flatSibling_of_mem_flatten {root flat : Node} (member : flat ∈ root.flatten.children) :
    FlatSibling True flat := by
  cases root with
  | element name attrs children =>
      rw [flatten_element, children_element] at member
      rcases mem_flattenAll.1 member with ⟨child, _, isFlat⟩
      exact flatSibling_flattenNode (.inl trivial) flat isFlat
  | text | comment => cases member

/-- Where properties are in their places they are in their places in the flat form. -/
theorem flatSibling_of_propsInParagraphs {root flat : Node} (placed : root.PropsInParagraphs)
    (member : flat ∈ root.flatten.children) : FlatSibling False flat := by
  cases root with
  | element name attrs children =>
      rw [flatten_element, children_element] at member
      rcases mem_flattenAll.1 member with ⟨child, among, isFlat⟩
      have other := placed.1 child among
      refine flatSibling_flattenNode (.inr ⟨other, ?_⟩) flat isFlat
      exact fun inner below => placed.2 inner (mem_outsidePropsOfAll.2 ⟨_, among, other, below⟩)
  | text | comment => cases member

end TemplateFill.Node
