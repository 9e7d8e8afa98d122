import Mathlib.Data.List.Chain
import TemplateFill.Proofs.Bookmark.FlatForm
import TemplateFill.Proofs.Markup.Outline

/-!
# There and back

Flattening a document and putting it into paragraphs again gives the document back exactly when
its paragraphs hold inline content behind their properties and begin where a group begins.  The
other way round nothing gets lost: what is regrouped flattens to what it was, as long as
properties stand in paragraphs.
-/

namespace TemplateFill.Node

/-! ## Documents that come back -/

/-- A paragraph among siblings is the first of them or stands right behind a block-level
node. -/
def OpensGroups (nodes : List Node) : Prop :=
  nodes.IsChain fun left right => right.isParagraph = true → left.isBlockLevel = true

/-- The children of a paragraph that is one group: its properties come first, and nothing in it
is block-level. -/
structure OneGroup (children : List Node) : Prop where
  props_first : children.Pairwise fun left right =>
    right.isParagraphProps = true → left.isParagraphProps = true
  inline : AllInline children

mutual

/-- The nodes at and below a sibling, without the properties of paragraphs and what is in
them. -/
def unsealed : Node → List Node
  | .element name attrs children =>
      .element name attrs children ::
        if name.kind = .paragraph then unsealedContent children else unsealedOfAll children
  | node => [node]

/-- The nodes at and below siblings. -/
def unsealedOfAll : List Node → List Node
  | [] => []
  | node :: rest => unsealed node ++ unsealedOfAll rest

/-- The nodes at and below the children of a paragraph that are no properties. -/
def unsealedContent : List Node → List Node
  | [] => []
  | node :: rest =>
      if node.isParagraphProps then unsealedContent rest
      else unsealed node ++ unsealedContent rest

end

/-- A node below the root keeps its shape when it is flattened and regrouped. -/
def KeepsShape (node : Node) : Prop :=
  if node.isParagraph then OneGroup node.children else OpensGroups node.children

/-- A sibling that comes back from the flat form. -/
private def Restored (node : Node) : Prop := regroupAll (flattenNode node) = [node]

private theorem opensGroups_of_no_paragraph {nodes : List Node}
    (none : ∀ node ∈ nodes, node.isParagraph = false) : OpensGroups nodes := by
  apply List.Pairwise.isChain
  apply List.pairwise_of_forall_mem_list
  intro left _ right member paragraph
  rw [none right member] at paragraph
  cases paragraph

/-- Regrouping never puts a paragraph in the middle of a group. -/
private theorem opensGroups_regroupAll (nodes : List Node) : OpensGroups (regroupAll nodes) := by
  have images : ∀ {part : List Node}, AllInline part → OpensGroups (part.map regroup) := by
    intro part inline
    apply opensGroups_of_no_paragraph
    intro node member
    rcases List.mem_map.1 member with ⟨source, among, rfl⟩
    simpa [isParagraph] using not_isParagraph_of_inline (inline source among)
  induction nodes using groupInduction with
  | inline nodes inline => rw [regroupAll_inline inline]; exact images inline
  | mark left name attrs props rest inline kind ih =>
      rw [regroupAll_paragraph inline kind]
      refine List.isChain_cons.2 ⟨fun _ _ _ => ?_, ih⟩
      exact isBlockLevel_of_isParagraph (by simp [isParagraph, kind])
  | block left last rest inline isBlock other ih =>
      rw [regroupAll_block inline isBlock other]
      refine List.isChain_append.2 ⟨images inline, List.isChain_cons.2 ⟨?_, ih⟩, ?_⟩
      · intro _ _ _
        rw [isBlockLevel_regroup, isBlock]
      · intro _ _ head member paragraph
        obtain rfl : regroup last = head := by simpa using member
        have same : last.isParagraph = true := by simpa [isParagraph] using paragraph
        rw [other] at same
        cases same

theorem regroupAll_ne_nil {nodes : List Node} (nonempty : nodes ≠ []) : regroupAll nodes ≠ [] := by
  induction nodes using groupInduction with
  | inline nodes inline =>
      rw [regroupAll_inline inline]
      simpa using nonempty
  | mark left name attrs props rest inline kind ih =>
      rw [regroupAll_paragraph inline kind]
      exact List.cons_ne_nil _ _
  | block left last rest inline isBlock other ih =>
      rw [regroupAll_block inline isBlock other]
      simp

/-- A single result has been made from a single group. -/
private theorem allInline_of_singleton {nodes : List Node} {last result : Node}
    (single : regroupAll (nodes ++ [last]) = [result]) : AllInline nodes := by
  have more : ∀ rest : List Node, regroupAll (rest ++ [last]) ≠ [] := fun rest =>
    regroupAll_ne_nil (by simp)
  induction nodes using groupInduction with
  | inline nodes inline => exact inline
  | mark left name attrs props rest inline kind _ =>
      rw [List.append_assoc, List.cons_append, regroupAll_paragraph inline kind] at single
      exact absurd (List.cons.inj single).2 (more rest)
  | block left mid rest inline isBlock other _ =>
      rw [List.append_assoc, List.cons_append, regroupAll_block inline isBlock other] at single
      have lengths := congrArg List.length single
      have positive := List.length_pos_of_ne_nil (more rest)
      simp only [List.length_append, List.length_map, List.length_cons, List.length_nil] at lengths
      omega

/-- Behind an inline node no paragraph follows before the next block-level node. -/
theorem firstGroupMarked_flattenAll {first : Node} {rest : List Node}
    (opens : OpensGroups (first :: rest)) (inline : first.isBlockLevel = false) :
    firstGroupMarked (flattenAll rest) = false := by
  induction rest generalizing first with
  | nil => rfl
  | cons second others ih =>
      rcases List.isChain_cons_cons.1 opens with ⟨behind, later⟩
      have other : second.isParagraph = false := by
        apply Bool.eq_false_iff.2
        intro paragraph
        rw [behind paragraph] at inline
        cases inline
      rw [flattenAll, flattenNode_of_not_paragraph other, List.singleton_append]
      cases isBlock : second.isBlockLevel with
      | true =>
          rw [firstGroupMarked_cons_block (by rw [isBlockLevel_flatten, isBlock])]
          simpa [isParagraph] using other
      | false =>
          rw [firstGroupMarked_cons_inline (by rw [isBlockLevel_flatten, isBlock])]
          exact ih later isBlock

private theorem getLast_flattenNode {node : Node} (isBlock : node.isBlockLevel = true) :
    ∀ last ∈ (flattenNode node).getLast?, last.isBlockLevel = true := by
  intro last member
  cases paragraph : node.isParagraph with
  | false =>
      rw [flattenNode_of_not_paragraph paragraph] at member
      obtain rfl : node.flatten = last := by simpa using member
      rw [isBlockLevel_flatten, isBlock]
  | true =>
      rcases exists_of_isParagraph paragraph with ⟨name, attrs, children, rfl, kind⟩
      rw [flattenNode_paragraph kind] at member
      obtain rfl : element name attrs _ = last := by simpa using member
      exact isBlockLevel_of_isParagraph (by simp [isParagraph, kind])

/-- Where paragraphs begin groups, siblings are restored one by one. -/
private theorem regroupAll_flattenAll {nodes : List Node} (opens : OpensGroups nodes) :
    regroupAll (flattenAll nodes) = nodes.flatMap fun node => regroupAll (flattenNode node) := by
  induction nodes with
  | nil => rfl
  | cons node rest ih =>
      have later := ih opens.tail
      rw [flattenAll, List.flatMap_cons, ← later]
      cases isBlock : node.isBlockLevel with
      | true => exact regroupAll_append (getLast_flattenNode isBlock)
      | false =>
          have other := not_isParagraph_of_inline isBlock
          have flatOther : node.flatten.isParagraph = false := by simpa [isParagraph] using other
          have unmarked := firstGroupMarked_flattenAll opens isBlock
          rw [flattenNode_of_not_paragraph other, List.singleton_append,
            regroupAll_cons_unmarked flatOther (.inr unmarked),
            regroupAll_cons_unmarked flatOther (.inr rfl)]
          rfl

private theorem flatMap_eq_self {images : Node → List Node} {nodes : List Node}
    (nonempty : ∀ node, images node ≠ []) (same : nodes.flatMap images = nodes) :
    ∀ node ∈ nodes, images node = [node] := by
  -- No node has room for more than one image.
  have bound : ∀ part : List Node, part.length ≤ (part.flatMap images).length := by
    intro part
    induction part with
    | nil => exact Nat.le_refl 0
    | cons node rest ih =>
        have positive := List.length_pos_of_ne_nil (nonempty node)
        rw [List.flatMap_cons, List.length_append, List.length_cons]
        omega
  induction nodes with
  | nil => intro node member; cases member
  | cons first rest ih =>
      rw [List.flatMap_cons] at same
      cases image : images first with
      | nil => exact absurd image (nonempty first)
      | cons head others =>
          rw [image, List.cons_append] at same
          obtain ⟨rfl, tails⟩ := List.cons.inj same
          have lengths := congrArg List.length tails
          have enough := bound rest
          rw [List.length_append] at lengths
          obtain rfl : others = [] := List.eq_nil_of_length_eq_zero (by omega)
          exact List.forall_mem_cons.2 ⟨image, ih tails⟩

private theorem flattenNode_ne_nil (node : Node) : flattenNode node ≠ [] := by
  cases node with
  | element name attrs children =>
      rw [flattenNode]
      split
      · simp
      · exact List.cons_ne_nil _ _
  | text | comment => simp [flattenNode]

private theorem regroupAll_flattenAll_eq_iff {nodes : List Node} :
    regroupAll (flattenAll nodes) = nodes ↔
      OpensGroups nodes ∧ ∀ node ∈ nodes, Restored node := by
  constructor
  · intro same
    have opens : OpensGroups nodes := same ▸ opensGroups_regroupAll (flattenAll nodes)
    rw [regroupAll_flattenAll opens] at same
    exact ⟨opens, flatMap_eq_self (fun node => regroupAll_ne_nil (flattenNode_ne_nil node)) same⟩
  · rintro ⟨opens, each⟩
    rw [regroupAll_flattenAll opens]
    induction nodes with
    | nil => rfl
    | cons node rest ih =>
        rw [List.forall_mem_cons] at each
        rw [List.flatMap_cons, each.1, ih opens.tail each.2, List.singleton_append]

private theorem restored_iff_of_not_paragraph {node : Node} (other : node.isParagraph = false) :
    Restored node ↔ node.flatten.regroup = node := by
  have flatOther : node.flatten.isParagraph = false := by simpa [isParagraph] using other
  rw [Restored, flattenNode_of_not_paragraph other, regroupAll_cons_unmarked flatOther (.inr rfl)]
  constructor
  · intro same
    exact (List.cons.inj same).1
  · intro same
    rw [same]
    rfl

private theorem allInline_of_flattenAll {nodes : List Node}
    (inline : AllInline (flattenAll nodes)) : AllInline nodes := by
  intro node member
  apply Bool.eq_false_iff.2
  intro isBlock
  obtain ⟨last, isLast⟩ : ∃ last, (flattenNode node).getLast? = some last :=
    ⟨_, List.getLast?_eq_getLast_of_ne_nil (flattenNode_ne_nil node)⟩
  have closing := getLast_flattenNode isBlock last isLast
  have among : last ∈ flattenAll nodes := by
    rw [flattenAll_eq_flatMap]
    exact List.mem_flatMap.2 ⟨node, member, List.mem_of_getLast? isLast⟩
  rw [inline last among] at closing
  cases closing

private theorem props_append_content {children : List Node}
    (propsFirst : children.Pairwise fun left right =>
      right.isParagraphProps = true → left.isParagraphProps = true) :
    children.filter isParagraphProps ++ children.filter (!·.isParagraphProps) = children := by
  induction children with
  | nil => rfl
  | cons first rest ih =>
      rcases List.pairwise_cons.1 propsFirst with ⟨before, later⟩
      cases isProps : first.isParagraphProps with
      | true => simp [isProps, ih later]
      | false =>
          have none : ∀ node ∈ rest, node.isParagraphProps = false := by
            intro node member
            apply Bool.eq_false_iff.2
            intro props
            rw [before node member props] at isProps
            cases isProps
          have nothing : rest.filter isParagraphProps = [] := by
            simpa [List.filter_eq_nil_iff] using none
          have everything : rest.filter (!·.isParagraphProps) = rest := by
            simpa [List.filter_eq_self] using none
          simp [isProps, nothing, everything]

/-- Properties and content are told apart by their sort. -/
private theorem filter_append_props {props content : List Node}
    (allProps : ∀ node ∈ props, node.isParagraphProps = true)
    (noProps : ∀ node ∈ content, node.isParagraphProps = false) :
    (props ++ content).filter isParagraphProps = props ∧
      (props ++ content).filter (!·.isParagraphProps) = content := by
  have all : props.filter isParagraphProps = props := by
    simpa [List.filter_eq_self] using allProps
  have none : content.filter isParagraphProps = [] := by
    simpa [List.filter_eq_nil_iff] using noProps
  have nothing : props.filter (!·.isParagraphProps) = [] := by
    simpa [List.filter_eq_nil_iff] using allProps
  have everything : content.filter (!·.isParagraphProps) = content := by
    simpa [List.filter_eq_self] using noProps
  constructor
  · rw [List.filter_append, all, none, List.append_nil]
  · rw [List.filter_append, nothing, everything, List.nil_append]

private theorem map_eq_self_iff {image : Node → Node} {nodes : List Node} :
    nodes.map image = nodes ↔ ∀ node ∈ nodes, image node = node := by
  induction nodes with
  | nil => simp
  | cons node rest ih => rw [List.map_cons, List.cons.injEq, ih, List.forall_mem_cons]

private theorem mem_content {node : Node} {children : List Node} :
    node ∈ children.filter (!·.isParagraphProps) ↔
      node ∈ children ∧ node.isParagraphProps = false := by
  rw [List.mem_filter, Bool.not_eq_true']

/-- What comes back of a paragraph is its properties and its content, so they were in this order. -/
private theorem oneGroup_of_restored {name : QName} {attrs : List Attr} {children : List Node}
    (paragraph : name.kind = .paragraph) (same : Restored (.element name attrs children)) :
    OneGroup children ∧ ∀ child ∈ children, child.isParagraphProps = false → Restored child := by
  rw [Restored, flattenNode_paragraph paragraph] at same
  have flatInline := allInline_of_singleton same
  have inline := allInline_of_flattenAll flatInline
  rw [regroupAll_paragraph flatInline paragraph, flattenAll_of_inline inline, List.map_map] at same
  have parts := congrArg Node.children (List.cons.inj same).1
  rw [children_element, children_element] at parts
  have allProps : ∀ node ∈ children.filter isParagraphProps, node.isParagraphProps = true :=
    fun node member => (List.mem_filter.1 member).2
  have noProps : ∀ node ∈ (children.filter (!·.isParagraphProps)).map (regroup ∘ flatten),
      node.isParagraphProps = false := by
    intro node member
    rcases List.mem_map.1 member with ⟨source, among, rfl⟩
    simpa [isParagraphProps] using (mem_content.1 among).2
  have contentSame := (filter_append_props allProps noProps).2
  rw [parts] at contentSame
  constructor
  · constructor
    case props_first =>
      rw [← parts]
      refine List.pairwise_append.2 ⟨?_, ?_, ?_⟩
      · exact List.pairwise_of_forall_mem_list fun left member _ _ _ => allProps left member
      · apply List.pairwise_of_forall_mem_list
        intro _ _ right member isProps
        rw [noProps right member] at isProps
        cases isProps
      · exact fun left member _ _ _ => allProps left member
    case inline =>
      intro child member
      cases isProps : child.isParagraphProps with
      | true => exact isBlockLevel_of_isParagraphProps isProps
      | false => exact inline child (mem_content.2 ⟨member, isProps⟩)
  · intro child member other
    have among := mem_content.2 ⟨member, other⟩
    rw [restored_iff_of_not_paragraph (not_isParagraph_of_inline (inline child among))]
    exact map_eq_self_iff.1 contentSame.symm child among

private theorem restored_of_oneGroup {name : QName} {attrs : List Attr} {children : List Node}
    (paragraph : name.kind = .paragraph) (group : OneGroup children)
    (each : ∀ child ∈ children, child.isParagraphProps = false → Restored child) :
    Restored (.element name attrs children) := by
  have inline : AllInline (children.filter (!·.isParagraphProps)) := by
    intro child member
    exact group.inline child (mem_content.1 member).1
  have back : (children.filter (!·.isParagraphProps)).map (regroup ∘ flatten) =
      children.filter (!·.isParagraphProps) := by
    rw [map_eq_self_iff]
    intro child among
    rcases mem_content.1 among with ⟨member, other⟩
    have isRestored := each child member other
    rwa [restored_iff_of_not_paragraph (not_isParagraph_of_inline (inline child among))]
      at isRestored
  rw [Restored, flattenNode_paragraph paragraph, flattenAll_of_inline inline,
    regroupAll_paragraph (allInline_map_flatten inline) paragraph, List.map_map, back,
    props_append_content group.props_first]
  rfl

theorem mem_unsealedOfAll {inner : Node} {nodes : List Node} :
    inner ∈ unsealedOfAll nodes ↔ ∃ node ∈ nodes, inner ∈ unsealed node := by
  induction nodes with
  | nil => simp [unsealedOfAll]
  | cons node rest ih => simp [unsealedOfAll, ih]

theorem unsealedContent_eq (nodes : List Node) :
    unsealedContent nodes = unsealedOfAll (nodes.filter (!·.isParagraphProps)) := by
  induction nodes with
  | nil => rfl
  | cons node rest ih =>
      cases isProps : node.isParagraphProps <;> simp [unsealedContent, unsealedOfAll, isProps, ih]

private theorem mem_unsealedContent {inner : Node} {nodes : List Node} :
    inner ∈ unsealedContent nodes ↔
      ∃ node ∈ nodes, node.isParagraphProps = false ∧ inner ∈ unsealed node := by
  simp [unsealedContent_eq, mem_unsealedOfAll, and_assoc]

private theorem restored_iff (node : Node) :
    Restored node ↔ ∀ inner ∈ unsealed node, KeepsShape inner := by
  induction node using treeInduction with
  | element name attrs children ih =>
      by_cases paragraph : name.kind = .paragraph
      · have shape : KeepsShape (.element name attrs children) ↔ OneGroup children := by
          simp [KeepsShape, isParagraph, paragraph]
        rw [unsealed, if_pos paragraph, List.forall_mem_cons, shape]
        constructor
        · intro same
          obtain ⟨group, each⟩ := oneGroup_of_restored paragraph same
          refine ⟨group, fun inner member => ?_⟩
          rcases mem_unsealedContent.1 member with ⟨child, among, other, below⟩
          exact (ih child among).1 (each child among other) inner below
        · rintro ⟨group, each⟩
          apply restored_of_oneGroup paragraph group
          intro child among other
          apply (ih child among).2
          intro inner below
          apply each inner
          exact mem_unsealedContent.2 ⟨child, among, other, below⟩
      · have other : (element name attrs children).isParagraph = false := by
          simpa [isParagraph] using paragraph
        rw [restored_iff_of_not_paragraph other, flatten_element, regroup_element, unsealed,
          if_neg paragraph, List.forall_mem_cons, element.injEq, regroupAll_flattenAll_eq_iff]
        simp only [true_and]
        apply and_congr (by simp [KeepsShape, other])
        constructor
        · intro each inner member
          rcases mem_unsealedOfAll.1 member with ⟨child, among, below⟩
          exact (ih child among).1 (each child among) inner below
        · intro each child among
          apply (ih child among).2
          intro inner below
          apply each inner
          exact mem_unsealedOfAll.2 ⟨child, among, below⟩
  | text content =>
      rw [restored_iff_of_not_paragraph rfl]
      simp [flatten, mapChildren, regroup, unsealed, KeepsShape, isParagraph, OpensGroups, children]
  | comment content =>
      rw [restored_iff_of_not_paragraph rfl]
      simp [flatten, mapChildren, regroup, unsealed, KeepsShape, isParagraph, OpensGroups, children]

/-- Which documents come back when they are flattened and regrouped. -/
theorem regroup_flatten_eq_self_iff {root : Node} :
    root.flatten.regroup = root ↔
      OpensGroups root.children ∧ ∀ inner ∈ unsealedOfAll root.children, KeepsShape inner := by
  have each : ∀ nodes : List Node, (∀ node ∈ nodes, Restored node) ↔
      ∀ inner ∈ unsealedOfAll nodes, KeepsShape inner := by
    intro nodes
    constructor
    · intro restored inner member
      rcases mem_unsealedOfAll.1 member with ⟨node, among, below⟩
      exact (restored_iff node).1 (restored node among) inner below
    · intro keeps node among
      apply (restored_iff node).2
      intro inner below
      apply keeps inner
      exact mem_unsealedOfAll.2 ⟨node, among, below⟩
  cases root with
  | element name attrs children =>
      rw [flatten_element, regroup_element, element.injEq, regroupAll_flattenAll_eq_iff,
        each children]
      simp
  | text | comment =>
      simp [flatten, mapChildren, regroup, OpensGroups, children, unsealedOfAll]

/-- The round trip gives back the same labels at the same depths exactly when paragraphs open
groups below the root, and every node below it keeps its shape; the properties of paragraphs
come back whatever is in them.  As in every `Node`, nothing is below the texts and comments of
`root`. -/
theorem outline_regroup_flatten_eq_iff (root : Node) :
    root.flatten.regroup.outline = root.outline ↔
      OpensGroups root.children ∧ ∀ inner ∈ unsealedOfAll root.children, KeepsShape inner := by
  rw [outline_inj, regroup_flatten_eq_self_iff]

/-! ## Flat siblings that come back -/

private theorem not_props_of_flatSibling {node : Node} (flat : FlatSibling False node) :
    node.isParagraphProps = false := by
  cases flat with
  | mark kind _ => simp [isParagraphProps, kind]
  | container _ other _ => simpa [isParagraphProps] using other
  | props never _ => exact never.elim
  | text | comment => rfl

private theorem flattenAll_map_regroup {nodes : List Node} (inline : AllInline nodes)
    (back : ∀ node ∈ nodes, node.isParagraph = false → flattenNode (regroup node) = [node]) :
    flattenAll (nodes.map regroup) = nodes := by
  induction nodes with
  | nil => rfl
  | cons node rest ih =>
      rcases List.forall_mem_cons.1 inline with ⟨nodeInline, restInline⟩
      rcases List.forall_mem_cons.1 back with ⟨nodeBack, restBack⟩
      rw [List.map_cons, flattenAll, nodeBack (not_isParagraph_of_inline nodeInline),
        ih restInline restBack, List.singleton_append]

private theorem flattenAll_regroupAll_of_back {nodes : List Node}
    (flat : ∀ node ∈ nodes, FlatSibling False node)
    (back : ∀ node ∈ nodes, node.isParagraph = false → flattenNode (regroup node) = [node]) :
    flattenAll (regroupAll nodes) = nodes := by
  induction nodes using groupInduction with
  | inline nodes inline => rw [regroupAll_inline inline, flattenAll_map_regroup inline back]
  | mark left name attrs props rest inline kind ih =>
      simp only [List.forall_mem_append, List.forall_mem_cons] at flat back
      rcases flat with ⟨leftFlat, markFlat, restFlat⟩
      rcases back with ⟨leftBack, _, restBack⟩
      have allProps := markFlat.props_of_mark kind
      have noProps : ∀ node ∈ left.map regroup, node.isParagraphProps = false := by
        intro node member
        rcases List.mem_map.1 member with ⟨source, among, rfl⟩
        simpa [isParagraphProps] using not_props_of_flatSibling (leftFlat source among)
      obtain ⟨propsBack, contentBack⟩ := filter_append_props allProps noProps
      rw [regroupAll_paragraph inline kind, flattenAll, flattenNode_paragraph kind, propsBack,
        contentBack, flattenAll_map_regroup inline leftBack, ih restFlat restBack,
        List.append_assoc, List.singleton_append]
  | block left last rest inline isBlock other ih =>
      simp only [List.forall_mem_append, List.forall_mem_cons] at flat back
      rcases flat with ⟨_, _, restFlat⟩
      rcases back with ⟨leftBack, lastBack, restBack⟩
      rw [regroupAll_block inline isBlock other, flattenAll_append, flattenAll, lastBack other,
        ih restFlat restBack, flattenAll_map_regroup inline leftBack, List.singleton_append]

private theorem flattenNode_regroup {node : Node} (flat : FlatSibling False node)
    (other : node.isParagraph = false) : flattenNode (regroup node) = [node] := by
  induction node using treeInduction with
  | element name attrs children ih =>
      cases flat with
      | mark kind _ => simp [isParagraph, kind] at other
      | container kind _ each =>
          rw [regroup_element, flattenNode, if_neg kind,
            flattenAll_regroupAll_of_back each
              fun child member => ih child member (each child member)]
      | props never _ => exact never.elim
  | text | comment => simp [regroup, flattenNode]

/-- Flat siblings come back from their paragraphs, wherever their groups end. -/
theorem flattenAll_regroupAll {nodes : List Node} (flat : ∀ node ∈ nodes, FlatSibling False node) :
    flattenAll (regroupAll nodes) = nodes :=
  flattenAll_regroupAll_of_back flat fun node member => flattenNode_regroup (flat node member)

/-- A flat document comes back from its paragraphs. -/
theorem flatten_regroup {root : Node} (flat : ∀ node ∈ root.children, FlatSibling False node) :
    root.regroup.flatten = root := by
  cases root with
  | element name attrs children =>
      rw [children_element] at flat
      rw [regroup_element, flatten_element, flattenAll_regroupAll flat]
  | text | comment => rfl

end TemplateFill.Node
