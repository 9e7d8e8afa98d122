import TemplateFill.Bookmark.Regroup
import TemplateFill.Proofs.Markup.Tree

/-!
# Groups of siblings

Regrouped siblings are read group by group: inline nodes up to the block-level node that closes
their group, and inline nodes at the end that no node closes.  A group with a paragraph mark at
its end becomes one paragraph, all other nodes stay where they are.
-/

namespace TemplateFill

section Groups

variable {α : Type} {closes : α → Bool}

theorem groupsAfter_of_open {values : List α} (isOpen : ∀ value ∈ values, closes value = false)
    (nonempty : values ≠ []) : groupsAfter closes values = [values] := by
  induction values with
  | nil => exact absurd rfl nonempty
  | cons first rest ih =>
      rw [List.forall_mem_cons] at isOpen
      cases rest with
      | nil => simp [groupsAfter, isOpen.1]
      | cons second others =>
          have tail := ih isOpen.2 (List.cons_ne_nil second others)
          rw [groupsAfter, tail]
          simp [isOpen.1]

theorem groupsAfter_append_cons {left rest : List α} {last : α}
    (isOpen : ∀ value ∈ left, closes value = false) (closing : closes last = true) :
    groupsAfter closes (left ++ last :: rest) = (left ++ [last]) :: groupsAfter closes rest := by
  induction left with
  | nil => simp [groupsAfter, closing]
  | cons first others ih =>
      rw [List.forall_mem_cons] at isOpen
      simp only [List.cons_append, groupsAfter, ih isOpen.2, isOpen.1, Bool.false_eq_true,
        if_false]

/-- What is in a group is in the list. -/
theorem subset_of_mem_groupsAfter {values group : List α}
    (member : group ∈ groupsAfter closes values) : group ⊆ values := by
  intro value among
  rw [← groupsAfter_flatten closes values]
  exact List.mem_flatten.2 ⟨group, member, among⟩

theorem groupsAfter_map {β : Type} (image : α → β) (closes : β → Bool) (values : List α) :
    groupsAfter closes (values.map image) =
      (groupsAfter (fun value => closes (image value)) values).map (·.map image) := by
  induction values with
  | nil => rfl
  | cons first rest ih =>
      rw [List.map_cons, groupsAfter, groupsAfter, ih]
      split
      · rfl
      · cases groupsAfter (fun value => closes (image value)) rest <;> rfl

/-- Every list is built group by group from its end. -/
@[elab_as_elim]
theorem groupsInduction (closes : α → Bool) {motive : List α → Prop}
    (isOpen : ∀ values, (∀ value ∈ values, closes value = false) → motive values)
    (closed : ∀ left last rest, (∀ value ∈ left, closes value = false) → closes last = true →
      motive rest → motive (left ++ last :: rest)) :
    ∀ values, motive values := by
  intro values
  cases found : values.find? closes with
  | none =>
      apply isOpen
      intro value member
      simpa using List.find?_eq_none.1 found value member
  | some last =>
      rcases List.find?_eq_some_iff_append.1 found with ⟨closing, left, rest, whole, before⟩
      have shorter : rest.length < values.length := by simp [whole]; omega
      rw [whole]
      refine closed left last rest (fun value member => ?_) closing
        (groupsInduction closes isOpen closed rest)
      simpa using before value member
termination_by values => values.length

end Groups

namespace Node

/-- Siblings none of which closes a group. -/
def AllInline (nodes : List Node) : Prop := ∀ node ∈ nodes, node.isBlockLevel = false

/-- What siblings of the flat form are regrouped to. -/
def regroupAll (nodes : List Node) : List Node := closeGroups (membersOf nodes)

theorem exists_of_isParagraph {node : Node} (paragraph : node.isParagraph = true) :
    ∃ name attrs props, node = element name attrs props ∧ name.kind = .paragraph := by
  cases node with
  | element name attrs props =>
      exact ⟨name, attrs, props, rfl, by simpa [isParagraph] using paragraph⟩
  | text | comment => simp [isParagraph] at paragraph

theorem isBlockLevel_of_isParagraph {node : Node} (paragraph : node.isParagraph = true) :
    node.isBlockLevel = true := by
  have kind : node.kind = .paragraph := by simpa [isParagraph] using paragraph
  simp [isBlockLevel, kind]

theorem not_isParagraph_of_inline {node : Node} (inline : node.isBlockLevel = false) :
    node.isParagraph = false := by
  cases paragraph : node.isParagraph with
  | false => rfl
  | true => rw [isBlockLevel_of_isParagraph paragraph] at inline; cases inline

theorem isBlockLevel_of_isParagraphProps {node : Node} (isProps : node.isParagraphProps = true) :
    node.isBlockLevel = false := by
  have kind : node.kind = .paragraphProps := by simpa [isParagraphProps] using isProps
  simp [isBlockLevel, kind]

/-- Every list of siblings is built group by group from its end. -/
@[elab_as_elim]
theorem groupInduction {motive : List Node → Prop}
    (inline : ∀ nodes, AllInline nodes → motive nodes)
    (mark : ∀ left name attrs props rest, AllInline left → name.kind = .paragraph →
      motive rest → motive (left ++ element name attrs props :: rest))
    (block : ∀ left last rest, AllInline left → last.isBlockLevel = true →
      last.isParagraph = false → motive rest → motive (left ++ last :: rest)) :
    ∀ nodes, motive nodes := by
  intro nodes
  induction nodes using groupsInduction isBlockLevel with
  | isOpen nodes allInline => exact inline nodes allInline
  | closed left last rest allInline isBlock ih =>
      cases paragraph : last.isParagraph with
      | false => exact block left last rest allInline isBlock paragraph ih
      | true =>
          rcases exists_of_isParagraph paragraph with ⟨name, attrs, props, rfl, kind⟩
          exact mark left name attrs props rest allInline kind ih

theorem membersOf_eq_map (nodes : List Node) :
    membersOf nodes = nodes.map fun node => ⟨node, regroup node⟩ := by
  induction nodes with
  | nil => simp [membersOf]
  | cons node rest ih => simp [membersOf, ih]

/-- The groups of siblings are regrouped one by one. -/
theorem regroupAll_eq_flatMap (nodes : List Node) :
    regroupAll nodes =
      (groupsAfter isBlockLevel nodes).flatMap fun group => closeGroup (membersOf group) := by
  simp only [regroupAll, closeGroups, membersOf_eq_map, groupsAfter_map, List.flatMap_map]

theorem closeGroup_of_not_paragraph {left : List Node} {last : Node}
    (other : last.isParagraph = false) :
    closeGroup (membersOf (left ++ [last])) = (left ++ [last]).map regroup := by
  rw [membersOf_eq_map]
  cases last with
  | element name attrs children =>
      have kind : name.kind ≠ .paragraph := by simpa [isParagraph] using other
      simp [closeGroup, kind]
  | text | comment => simp [closeGroup]

theorem regroupAll_inline {nodes : List Node} (inline : AllInline nodes) :
    regroupAll nodes = nodes.map regroup := by
  rcases List.eq_nil_or_concat nodes with rfl | ⟨left, last, rfl⟩
  · rfl
  · rw [List.concat_eq_append] at inline ⊢
    have isOpen : ∀ member ∈ membersOf (left ++ [last]), member.source.isBlockLevel = false := by
      rw [membersOf_eq_map]
      exact List.forall_mem_map.2 inline
    have nonempty : membersOf (left ++ [last]) ≠ [] := by simp [membersOf_eq_map]
    have other := not_isParagraph_of_inline (inline last (by simp))
    rw [regroupAll, closeGroups, groupsAfter_of_open isOpen nonempty, List.flatMap_singleton,
      closeGroup_of_not_paragraph other]

/-- The first group is regrouped by itself. -/
private theorem regroupAll_closed {left rest : List Node} {last : Node} (inline : AllInline left)
    (block : last.isBlockLevel = true) :
    regroupAll (left ++ last :: rest) =
      closeGroup (membersOf (left ++ [last])) ++ regroupAll rest := by
  have isOpen : ∀ member ∈ membersOf left, member.source.isBlockLevel = false := by
    rw [membersOf_eq_map]
    exact List.forall_mem_map.2 inline
  have split : membersOf (left ++ last :: rest) =
      membersOf left ++ ⟨last, regroup last⟩ :: membersOf rest := by
    simp [membersOf_eq_map]
  rw [regroupAll, closeGroups, split, groupsAfter_append_cons isOpen block, List.flatMap_cons]
  simp [membersOf_eq_map, regroupAll, closeGroups]

/-- A paragraph mark takes in the inline nodes before it. -/
theorem regroupAll_paragraph {left rest : List Node} {name : QName} {attrs : List Attr}
    {props : List Node} (inline : AllInline left) (paragraph : name.kind = .paragraph) :
    regroupAll (left ++ element name attrs props :: rest) =
      element name attrs (props ++ left.map regroup) :: regroupAll rest := by
  have block : (element name attrs props).isBlockLevel = true := by simp [isBlockLevel, paragraph]
  rw [regroupAll_closed inline block]
  simp [membersOf_eq_map, closeGroup, paragraph]

/-- A mark with nothing in front of it makes a paragraph on its own. -/
theorem regroupAll_cons_paragraph {rest : List Node} {name : QName} {attrs : List Attr}
    {props : List Node} (paragraph : name.kind = .paragraph) :
    regroupAll (element name attrs props :: rest) =
      element name attrs props :: regroupAll rest := by
  rw [← List.nil_append (element name attrs props :: rest),
    regroupAll_paragraph (List.forall_mem_nil _) paragraph, List.map_nil, List.append_nil]

/-- Other block-level nodes leave the nodes before them alone. -/
theorem regroupAll_block {left rest : List Node} {last : Node} (inline : AllInline left)
    (block : last.isBlockLevel = true) (other : last.isParagraph = false) :
    regroupAll (left ++ last :: rest) = left.map regroup ++ regroup last :: regroupAll rest := by
  rw [regroupAll_closed inline block, closeGroup_of_not_paragraph other]
  simp

/-- Without paragraph marks siblings are regrouped one by one. -/
theorem regroupAll_of_unmarked {nodes : List Node}
    (unmarked : ∀ node ∈ nodes, ¬ node.isParagraph = true) :
    regroupAll nodes = nodes.map regroup := by
  induction nodes using groupInduction with
  | inline nodes inline => exact regroupAll_inline inline
  | mark left name attrs props rest inline kind ih =>
      exact absurd (by simpa [isParagraph] using kind)
        (unmarked (element name attrs props) (by simp))
  | block left last rest inline isBlock other ih =>
      simp only [List.forall_mem_append, List.forall_mem_cons] at unmarked
      rw [regroupAll_block inline isBlock other, ih unmarked.2.2, List.map_append, List.map_cons]

theorem regroup_element (name : QName) (attrs : List Attr) (children : List Node) :
    regroup (.element name attrs children) = .element name attrs (regroupAll children) := by
  rw [regroup, regroupAll]

@[simp] theorem label_regroup (node : Node) : node.regroup.label = node.label := by
  cases node <;> simp [regroup, label]

@[simp] theorem kind_regroup (node : Node) : node.regroup.kind = node.kind :=
  kind_eq_of_label_eq (label_regroup node)

/-- Where a regrouped sibling comes from: it is the image of a sibling that is no paragraph
mark, or a paragraph made from a mark and inline siblings. -/
inductive RegroupedFrom (nodes : List Node) : Node → Prop where
  | image {node : Node} : node ∈ nodes → node.isParagraph = false →
      RegroupedFrom nodes node.regroup
  | paragraph {name : QName} {attrs : List Attr} {props inline : List Node} :
      element name attrs props ∈ nodes → name.kind = .paragraph →
      (∀ node ∈ inline, node ∈ nodes) → AllInline inline →
      RegroupedFrom nodes (.element name attrs (props ++ inline.map regroup))

theorem RegroupedFrom.mono {nodes more : List Node} {result : Node}
    (subset : ∀ node ∈ nodes, node ∈ more) (origin : RegroupedFrom nodes result) :
    RegroupedFrom more result := by
  cases origin with
  | image member other => exact .image (subset _ member) other
  | paragraph mark kind taken inline =>
      have taken' := fun node member => subset node (taken node member)
      exact .paragraph (subset _ mark) kind taken' inline

theorem regroupedFrom_of_mem {result : Node} {nodes : List Node}
    (member : result ∈ regroupAll nodes) : RegroupedFrom nodes result := by
  induction nodes using groupInduction with
  | inline nodes inline =>
      rw [regroupAll_inline inline] at member
      rcases List.mem_map.1 member with ⟨node, among, rfl⟩
      exact .image among (not_isParagraph_of_inline (inline node among))
  | mark left name attrs props rest inline kind ih =>
      rw [regroupAll_paragraph inline kind, List.mem_cons] at member
      rcases member with rfl | later
      · exact .paragraph (by simp) kind (fun node among => by simp [among]) inline
      · exact (ih later).mono fun node among => by simp [among]
  | block left last rest inline isBlock other ih =>
      rw [regroupAll_block inline isBlock other, List.mem_append, List.mem_cons] at member
      rcases member with before | rfl | later
      · rcases List.mem_map.1 before with ⟨node, among, rfl⟩
        exact .image (by simp [among]) (not_isParagraph_of_inline (inline node among))
      · exact .image (by simp) other
      · exact (ih later).mono fun node among => by simp [among]

private theorem everyLabel_of_images {property : Label → Prop} {nodes : List Node}
    (every : ∀ node ∈ nodes, EveryLabel property node)
    (images : ∀ node ∈ nodes, EveryLabel property node.regroup) :
    ∀ result ∈ regroupAll nodes, EveryLabel property result := by
  intro result member
  cases regroupedFrom_of_mem member with
  | image among _ => exact images _ among
  | paragraph mark _ taken _ =>
      rcases everyLabel_element.1 (every _ mark) with ⟨top, below⟩
      refine everyLabel_element.2 ⟨top, List.forall_mem_append.2 ⟨below, ?_⟩⟩
      exact List.forall_mem_map.2 fun inner isTaken => images inner (taken inner isTaken)

/-- Regrouping makes no labels. -/
theorem everyLabel_regroup {property : Label → Prop} {node : Node}
    (every : EveryLabel property node) : EveryLabel property node.regroup := by
  induction node using treeInduction with
  | element name attrs children ih =>
      rcases everyLabel_element.1 every with ⟨top, below⟩
      rw [regroup_element]
      refine everyLabel_element.2 ⟨top, everyLabel_of_images below ?_⟩
      exact fun child member => ih child member (below child member)
  | text | comment => exact every

theorem everyLabel_regroupAll {property : Label → Prop} {nodes : List Node}
    (every : ∀ node ∈ nodes, EveryLabel property node) :
    ∀ result ∈ regroupAll nodes, EveryLabel property result :=
  everyLabel_of_images every fun node member => everyLabel_regroup (every node member)

/-! ## Block-level nodes stay block-level -/

/-- Whether a paragraph stands at or below a node. -/
def holdsParagraph (node : Node) : Bool := node.selfAndDescendants.any isParagraph

theorem holdsParagraph_element (name : QName) (attrs : List Attr) (children : List Node) :
    (element name attrs children).holdsParagraph =
      ((name.kind == .paragraph) || children.any holdsParagraph) := by
  rw [holdsParagraph, selfAndDescendants, List.any_cons, descendants_element,
    descendantsOfAll_eq_flatMap, List.any_flatMap]
  rfl

/-- A content control is block-level when one of its children has a paragraph in it. -/
theorem isBlockLevel_eq (node : Node) :
    node.isBlockLevel =
      (node.isParagraph || node.kind == .table || node.kind == .tableCellProps ||
        node.kind == .altChunk ||
        node.kind == .contentControl && node.children.any holdsParagraph) := by
  cases node with
  | element name attrs children =>
      have inside : (element name attrs children).descendants.any isParagraph =
          children.any holdsParagraph := by
        rw [descendants_element, descendantsOfAll_eq_flatMap, List.any_flatMap]
        rfl
      simp only [isBlockLevel, isParagraph, kind_element, inside, children_element]
      cases name.kind <;> rfl
  | text | comment => rfl

private theorem any_holdsParagraph_map_regroup {nodes : List Node}
    (each : ∀ node ∈ nodes, (regroup node).holdsParagraph = node.holdsParagraph) :
    (nodes.map regroup).any holdsParagraph = nodes.any holdsParagraph := by
  rw [List.any_map]
  exact any_congr_of_mem each

theorem any_holdsParagraph_regroupAll {nodes : List Node}
    (each : ∀ node ∈ nodes, (regroup node).holdsParagraph = node.holdsParagraph) :
    (regroupAll nodes).any holdsParagraph = nodes.any holdsParagraph := by
  induction nodes using groupInduction with
  | inline nodes inline => rw [regroupAll_inline inline, any_holdsParagraph_map_regroup each]
  | mark left name attrs props rest inline kind ih =>
      rw [regroupAll_paragraph inline kind]
      simp [holdsParagraph_element, kind]
  | block left last rest inline isBlock other ih =>
      simp only [List.forall_mem_append, List.forall_mem_cons] at each
      rcases each with ⟨leftEach, lastEach, restEach⟩
      rw [regroupAll_block inline isBlock other, List.any_append, List.any_cons, List.any_append,
        List.any_cons, any_holdsParagraph_map_regroup leftEach, lastEach, ih restEach]

@[simp] theorem holdsParagraph_regroup (node : Node) :
    node.regroup.holdsParagraph = node.holdsParagraph := by
  induction node using treeInduction with
  | element name attrs children ih =>
      rw [regroup_element, holdsParagraph_element, holdsParagraph_element,
        any_holdsParagraph_regroupAll ih]
  | text | comment => rfl

@[simp] theorem isBlockLevel_regroup (node : Node) :
    node.regroup.isBlockLevel = node.isBlockLevel := by
  cases node with
  | element name attrs children =>
      rw [isBlockLevel_eq, isBlockLevel_eq, regroup_element, children_element, children_element,
        any_holdsParagraph_regroupAll fun child _ => holdsParagraph_regroup child]
      rfl
  | text | comment => rfl

/-! ## The first group -/

/-- Whether the first group of siblings ends with a paragraph mark. -/
def firstGroupMarked (nodes : List Node) : Bool :=
  (nodes.find? (·.isBlockLevel)).any (·.isParagraph)

theorem firstGroupMarked_of_inline {nodes : List Node} (inline : AllInline nodes) :
    firstGroupMarked nodes = false := by
  have none : nodes.find? (·.isBlockLevel) = none := by
    rw [List.find?_eq_none]
    intro node member
    simp [inline node member]
  rw [firstGroupMarked, none, Option.any_none]

theorem firstGroupMarked_append_inline {left rest : List Node} (inline : AllInline left) :
    firstGroupMarked (left ++ rest) = firstGroupMarked rest := by
  have none : left.find? (·.isBlockLevel) = none := by
    rw [List.find?_eq_none]
    intro node member
    simp [inline node member]
  rw [firstGroupMarked, List.find?_append, none, Option.none_or, firstGroupMarked]

theorem firstGroupMarked_cons_block {node : Node} {rest : List Node}
    (block : node.isBlockLevel = true) : firstGroupMarked (node :: rest) = node.isParagraph := by
  rw [firstGroupMarked, List.find?_cons_of_pos block, Option.any_some]

theorem firstGroupMarked_cons_inline {node : Node} {rest : List Node}
    (inline : node.isBlockLevel = false) :
    firstGroupMarked (node :: rest) = firstGroupMarked rest := by
  rw [firstGroupMarked, List.find?_cons_of_neg (by simp [inline]), firstGroupMarked]

theorem firstGroupMarked_mark {name : QName} (paragraph : name.kind = .paragraph)
    (attrs : List Attr) (props rest : List Node) :
    firstGroupMarked (element name attrs props :: rest) = true := by
  have mark : (element name attrs props).isParagraph = true := by simp [isParagraph, paragraph]
  rw [firstGroupMarked_cons_block (isBlockLevel_of_isParagraph mark), mark]

/-- Behind siblings that are no paragraphs a mark comes first only if none of them is
block-level. -/
theorem firstGroupMarked_append_of_no_paragraph {left rest : List Node}
    (noParagraph : ∀ node ∈ left, node.isParagraph = false) :
    firstGroupMarked (left ++ rest) = true ↔ AllInline left ∧ firstGroupMarked rest = true := by
  induction left with
  | nil => simp [AllInline]
  | cons node others ih =>
      rcases List.forall_mem_cons.1 noParagraph with ⟨here, later⟩
      rw [List.cons_append, AllInline, List.forall_mem_cons]
      cases block : node.isBlockLevel with
      | true =>
          rw [firstGroupMarked_cons_block block, here]
          simp
      | false =>
          rw [firstGroupMarked_cons_inline block, ih later, AllInline, and_assoc]
          simp

/-- What closes the first group does not depend on what follows. -/
theorem firstGroupMarked_append {left right : List Node} (marked : firstGroupMarked left = true) :
    firstGroupMarked (left ++ right) = true := by
  cases found : left.find? (·.isBlockLevel) with
  | none => rw [firstGroupMarked, found] at marked; cases marked
  | some last =>
      rw [firstGroupMarked, found] at marked
      rw [firstGroupMarked, List.find?_append, found, Option.some_or, marked]

/-- A marked first group is a list of inline nodes and the mark. -/
theorem exists_of_firstGroupMarked {nodes : List Node} (marked : firstGroupMarked nodes = true) :
    ∃ left name attrs props rest, nodes = left ++ element name attrs props :: rest ∧
      AllInline left ∧ name.kind = .paragraph := by
  induction nodes using groupInduction with
  | inline nodes inline => rw [firstGroupMarked_of_inline inline] at marked; cases marked
  | mark left name attrs props rest inline kind ih =>
      exact ⟨left, name, attrs, props, rest, rfl, inline, kind⟩
  | block left last rest inline isBlock other ih =>
      rw [firstGroupMarked_append_inline inline, firstGroupMarked_cons_block isBlock, other]
        at marked
      cases marked

/-- A node before a group that no mark closes stays where it is. -/
theorem regroupAll_cons_unmarked {node : Node} {rest : List Node}
    (other : node.isParagraph = false)
    (alone : node.isBlockLevel = true ∨ firstGroupMarked rest = false) :
    regroupAll (node :: rest) = regroup node :: regroupAll rest := by
  cases isBlock : node.isBlockLevel with
  | true => exact regroupAll_block (List.forall_mem_nil _) isBlock other
  | false =>
      have unmarked : firstGroupMarked rest = false := by simpa [isBlock] using alone
      induction rest using groupInduction with
      | inline nodes inline =>
          have longer : AllInline (node :: nodes) := List.forall_mem_cons.2 ⟨isBlock, inline⟩
          rw [regroupAll_inline inline, regroupAll_inline longer, List.map_cons]
      | mark left name attrs props rest inline kind ih =>
          rw [firstGroupMarked_append_inline inline, firstGroupMarked_mark kind] at unmarked
          cases unmarked
      | block left last rest inline lastBlock lastOther ih =>
          have longer : AllInline (node :: left) := List.forall_mem_cons.2 ⟨isBlock, inline⟩
          rw [regroupAll_block inline lastBlock lastOther, ← List.cons_append,
            regroupAll_block longer lastBlock lastOther, List.map_cons, List.cons_append]

/-- Inline nodes at the end stay where they are. -/
theorem regroupAll_append_inline {nodes tail : List Node} (inline : AllInline tail) :
    regroupAll (nodes ++ tail) = regroupAll nodes ++ tail.map regroup := by
  induction nodes using groupInduction with
  | inline nodes allInline =>
      have longer : AllInline (nodes ++ tail) := List.forall_mem_append.2 ⟨allInline, inline⟩
      rw [regroupAll_inline allInline, regroupAll_inline longer, List.map_append]
  | mark left name attrs props rest allInline kind ih =>
      rw [List.append_assoc, List.cons_append, regroupAll_paragraph allInline kind,
        regroupAll_paragraph allInline kind, ih, List.cons_append]
  | block left last rest allInline isBlock other ih =>
      rw [List.append_assoc, List.cons_append, regroupAll_block allInline isBlock other,
        regroupAll_block allInline isBlock other, ih, List.append_assoc, List.cons_append]

/-- A list that ends with a block-level node is regrouped by itself. -/
theorem regroupAll_append {left right : List Node}
    (ends : ∀ last ∈ left.getLast?, last.isBlockLevel = true) :
    regroupAll (left ++ right) = regroupAll left ++ regroupAll right := by
  induction left using groupInduction with
  | inline nodes inline =>
      rcases List.eq_nil_or_concat nodes with rfl | ⟨before, last, rfl⟩
      · rfl
      · have block := ends last (by simp)
        rw [inline last (by simp)] at block
        cases block
  | mark before name attrs props rest inline kind ih =>
      have restEnds : ∀ last ∈ rest.getLast?, last.isBlockLevel = true := by
        intro last member
        exact ends last (by simp_all [List.getLast?_append, List.getLast?_cons])
      rw [List.append_assoc, List.cons_append, regroupAll_paragraph inline kind,
        regroupAll_paragraph inline kind, ih restEnds, List.cons_append]
  | block before last rest inline isBlock other ih =>
      have restEnds : ∀ last ∈ rest.getLast?, last.isBlockLevel = true := by
        intro last member
        exact ends last (by simp_all [List.getLast?_append, List.getLast?_cons])
      rw [List.append_assoc, List.cons_append, regroupAll_block inline isBlock other,
        regroupAll_block inline isBlock other, ih restEnds, List.append_assoc, List.cons_append]

end Node

end TemplateFill
