import TemplateFill.Proofs.Bookmark.Group
import TemplateFill.Proofs.Store.Pass

/-!
# Stores of documents

A store represents a document tree when it is well formed and its root, which has no parent,
has the branch of the tree.  A pass between stores makes of a represented document what the
pass of the same name makes of the tree.
-/

namespace TemplateFill

/-- Only texts and comments are character data. -/
theorem QName.kind_ne_charData (name : QName) : name.kind ≠ .charData := by
  have words : ∀ entries : List (String × Kind), (∀ entry ∈ entries, entry.2 ≠ .charData) →
      (entries.lookup name.localName).getD .generic ≠ .charData := by
    intro entries all
    cases found : entries.lookup name.localName with
    | none => exact nofun
    | some kind =>
        rcases List.lookup_eq_some_iff.1 found with ⟨_, _, rfl, _⟩
        exact all (name.localName, kind) (by simp)
  rw [QName.kind]
  split_ifs
  · exact words wordKinds (by decide)
  all_goals exact nofun

namespace Branch

theorem ofNodes_eq_map (nodes : List Node) : ofNodes nodes = nodes.map ofNode := by
  induction nodes with
  | nil => rfl
  | cons node rest ih => rw [ofNodes, ih, List.map_cons]

theorem ofNodes_append (left right : List Node) :
    ofNodes (left ++ right) = ofNodes left ++ ofNodes right := by
  simp [ofNodes_eq_map]

theorem label_ofNode (node : Node) : (ofNode node).label = node.label := by
  cases node <;> rfl

theorem children_ofNode (node : Node) : (ofNode node).children = ofNodes node.children := by
  cases node <;> rfl

theorem kind_ofNode (node : Node) : (ofNode node).kind = node.kind := by
  rw [kind, label_ofNode]
  rfl

mutual

/-- The outline of a document lists the labels of its nodes in document order. -/
theorem map_outlineFrom : ∀ (depth : Nat) (node : Node),
    (node.outlineFrom depth).map (·.2) = node.selfAndDescendants.map Node.label
  | depth, .element name attrs children => by
      rw [Node.outlineFrom, List.map_cons, map_outlineOfAll (depth + 1) children]
      rfl
  | _, .text _ => rfl
  | _, .comment _ => rfl

theorem map_outlineOfAll : ∀ (depth : Nat) (nodes : List Node),
    (Node.outlineOfAll depth nodes).map (·.2) = (Node.descendantsOfAll nodes).map Node.label
  | _, [] => rfl
  | depth, node :: rest => by
      rw [Node.outlineOfAll, List.map_append, map_outlineFrom depth node,
        map_outlineOfAll depth rest, Node.descendantsOfAll]
      simp [Node.selfAndDescendants]

end

/-- A branch is block-level if its document tree is. -/
theorem isBlockLevel_ofNode (node : Node) : (ofNode node).isBlockLevel = node.isBlockLevel := by
  have inside : ((outlineOfAll 1 (ofNode node).children).any fun inner =>
      inner.2.kind == .paragraph) = node.descendants.any Node.isParagraph := by
    have labels := congrArg (·.any fun label : Label => label.kind == .paragraph)
      (map_outlineOfAll 1 node.children)
    simp only [List.any_map, Function.comp_def] at labels
    rw [children_ofNode, outlineOfAll_ofNodes, labels]
    cases node <;> rfl
  cases kind : node.kind <;>
    simp only [isBlockLevel, Node.isBlockLevel, kind_ofNode, kind, inside]

end Branch

namespace NodeStore

variable {store source : NodeStore} {document : Node}

/-- A well-formed store whose root has no parent. -/
structure WellRooted (store : NodeStore) : Prop extends WellFormed store where
  rootInRange : store.root < store.size
  rootDetached : store.parent? store.root = none

/-- A store that holds a document below its root. -/
structure Represents (store : NodeStore) (document : Node) : Prop extends WellRooted store where
  branch_root : store.branch store.root = .ofNode document

/-- Both fail alike, or both have results and these are related. -/
def Agrees {ε α β : Type} (related : α → β → Prop) : Except ε α → Except ε β → Prop
  | .ok left, .ok right => related left right
  | .error fault, .error fault' => fault = fault'
  | _, _ => False

/-- What goes on alike from related results agrees. -/
theorem Agrees.bind {ε α β γ δ : Type} {related : α → β → Prop} {related' : γ → δ → Prop}
    {left : Except ε α} {right : Except ε β} {next : α → Except ε γ} {next' : β → Except ε δ}
    (agrees : Agrees related left right)
    (goesOn : ∀ value value', related value value' → Agrees related' (next value) (next' value')) :
    Agrees related' (left >>= next) (right >>= next') := by
  cases left with
  | error fault =>
      cases right with
      | error fault' => exact agrees
      | ok value' => exact agrees.elim
  | ok value =>
      cases right with
      | error fault' => exact agrees.elim
      | ok value' => exact goesOn value value' agrees

/-- Errors may be reworded on both sides. -/
theorem Agrees.mapError {ε ε' α β : Type} {related : α → β → Prop} {left : Except ε α}
    {right : Except ε β} {reword : ε → ε'} (agrees : Agrees related left right) :
    Agrees related (left.mapError reword) (right.mapError reword) := by
  cases left with
  | error fault =>
      cases right with
      | error fault' => exact congrArg reword agrees
      | ok value' => exact agrees.elim
  | ok value =>
      cases right with
      | error fault' => exact agrees.elim
      | ok value' => exact agrees

/-- Where related results become equal, both sides do. -/
theorem Agrees.map_eq {ε α β : Type} {related : α → β → Prop} {left : Except ε α}
    {right : Except ε β} {view : α → β} (agrees : Agrees related left right)
    (same : ∀ value value', related value value' → view value = value') :
    left.map view = right := by
  cases left with
  | error fault =>
      cases right with
      | error fault' => exact congrArg Except.error agrees
      | ok value' => exact agrees.elim
  | ok value =>
      cases right with
      | error fault' => exact agrees.elim
      | ok value' => exact congrArg Except.ok (same value value' agrees)

theorem Agrees.exists_right {ε α β : Type} {related : α → β → Prop} {value : α}
    {right : Except ε β} (agrees : Agrees related (.ok value) right) :
    ∃ value', right = .ok value' ∧ related value value' := by
  cases right with
  | error fault => exact agrees.elim
  | ok value' => exact ⟨value', rfl, agrees⟩

theorem Agrees.exists_left {ε α β : Type} {related : α → β → Prop} {left : Except ε α}
    {value' : β} (agrees : Agrees related left (.ok value')) :
    ∃ value, left = .ok value ∧ related value value' := by
  cases left with
  | error fault => exact agrees.elim
  | ok value => exact ⟨value, rfl, agrees⟩

/-- The label of a node that is the top of a document's node. -/
theorem WellFormed.label_eq (wellFormed : store.WellFormed) {id : NodeId} {node : Node}
    (below : store.branch id = .ofNode node) : store.label id = node.label := by
  rw [← Branch.label_ofNode, ← below, wellFormed.branch_eq]
  rfl

/-- The children of a node that is the top of a document's node. -/
theorem WellFormed.map_branch_children (wellFormed : store.WellFormed) {id : NodeId} {node : Node}
    (below : store.branch id = .ofNode node) :
    (store.children id).map store.branch = Branch.ofNodes node.children := by
  rw [← Branch.children_ofNode, ← below, wellFormed.branch_eq]
  rfl

/-- Choosing nodes by their labels is choosing the documents below them. -/
theorem map_branch_filter (wellFormed : store.WellFormed) (accept : Label → Bool) :
    ∀ {ids : List NodeId} {nodes : List Node}, ids.map store.branch = Branch.ofNodes nodes →
      (ids.filter fun id => accept (store.label id)).map store.branch =
          Branch.ofNodes (nodes.filter fun node => accept node.label) ∧
        (ids.any fun id => accept (store.label id)) = nodes.any fun node => accept node.label
  | [], [], _ => ⟨rfl, rfl⟩
  | id :: ids, node :: nodes, below => by
      rw [List.map_cons, Branch.ofNodes, List.cons.injEq] at below
      rcases map_branch_filter wellFormed accept below.2 with ⟨kept, some⟩
      have label := wellFormed.label_eq below.1
      rw [List.any_cons, List.any_cons, some, label, List.filter_cons, List.filter_cons, label]
      refine ⟨?_, rfl⟩
      split
      · rw [List.map_cons, below.1, kept, Branch.ofNodes]
      · exact kept

theorem WellFormed.setRoot (wellFormed : store.WellFormed) (top : NodeId) :
    (store.setRoot top).WellFormed :=
  wellFormed.congr (fun _ => rfl) fun _ => rfl

theorem WellFormed.branch_setRoot (wellFormed : store.WellFormed) (top id : NodeId) :
    (store.setRoot top).branch id = store.branch id :=
  wellFormed.branch_congr (Nat.le_refl store.size) fun _ _ => ⟨rfl, rfl⟩

theorem wellRooted_rooted {built : NodeStore × NodeId} (adds : Adds empty built.1 [built.2]) :
    (rooted built).WellRooted where
  toWellFormed := adds.wellFormed.setRoot built.2
  rootInRange := adds.inRange _ List.mem_cons_self
  rootDetached := adds.detached _ List.mem_cons_self

theorem represents_rooted {built : NodeStore × NodeId} (adds : Adds empty built.1 [built.2])
    (below : built.1.branch built.2 = .ofNode document) : (rooted built).Represents document where
  toWellRooted := wellRooted_rooted adds
  branch_root := (adds.wellFormed.branch_setRoot built.2 built.2).trans below

/-! ## The flat form -/

mutual

theorem branches_addFlat : ∀ (node : Node) {store : NodeStore}, store.WellFormed →
    (store.addFlat (.ofNode node)).2.map (store.addFlat (.ofNode node)).1.branch =
      Branch.ofNodes node.flattenNode
  | .element name attrs children, store, wellFormed => by
      by_cases paragraph : name.kind = .paragraph
      · rcases branches_addContent children wellFormed with ⟨lifted, props⟩
        have content := adds_addContent (Branch.ofNodes children) wellFormed
        have mark := (content.perm List.perm_append_comm).addOver (.element name attrs)
        have kept : (store.addContent (Branch.ofNodes children)).2.1.map
            ((store.addContent (Branch.ofNodes children)).1.addOver (.element name attrs)
              (store.addContent (Branch.ofNodes children)).2.2).1.branch =
            (store.addContent (Branch.ofNodes children)).2.1.map
              (store.addContent (Branch.ofNodes children)).1.branch :=
          List.map_congr_left fun id member =>
            content.wellFormed.branch_addOver (content.inRange id (List.mem_append_left _ member))
        simp only [Branch.ofNode, addFlat, Label.kind, paragraph, Node.flattenNode, if_true,
          List.map_append, List.map_cons, List.map_nil, Branch.ofNodes_append, kept, lifted,
          mark.2, props, Branch.ofNodes]
      · have below := branches_addFlatAll children wellFormed
        have adds := adds_addFlatAll (Branch.ofNodes children) wellFormed
        rw [← List.append_nil (store.addFlatAll (Branch.ofNodes children)).2] at adds
        have copy := (adds.addOver (.element name attrs)).2
        rw [below] at copy
        rw [Branch.ofNode, addFlat, Node.flattenNode, if_neg paragraph]
        split
        · contradiction
        · exact absurd ‹_› name.kind_ne_charData
        · simp only [List.map_cons, List.map_nil, copy, Branch.ofNodes, Branch.ofNode]
  | .text content, store, wellFormed => by
      simp only [Branch.ofNode, addFlat, Label.kind, Node.flattenNode, Branch.ofNodes,
        List.map_cons, List.map_nil, (adds_graft _ wellFormed).2]
  | .comment content, store, wellFormed => by
      simp only [Branch.ofNode, addFlat, Label.kind, Node.flattenNode, Branch.ofNodes,
        List.map_cons, List.map_nil, (adds_graft _ wellFormed).2]

theorem branches_addFlatAll : ∀ (nodes : List Node) {store : NodeStore}, store.WellFormed →
    (store.addFlatAll (Branch.ofNodes nodes)).2.map
        (store.addFlatAll (Branch.ofNodes nodes)).1.branch =
      Branch.ofNodes (Node.flattenAll nodes)
  | [], store, wellFormed => rfl
  | node :: rest, store, wellFormed => by
      have first := adds_addFlat (.ofNode node) wellFormed
      have others := adds_addFlatAll (Branch.ofNodes rest) first.wellFormed
      rw [Branch.ofNodes, addFlatAll, first.map_branch_append others,
        branches_addFlat node wellFormed, branches_addFlatAll rest first.wellFormed,
        Node.flattenAll, Branch.ofNodes_append]

theorem branches_addContent : ∀ (nodes : List Node) {store : NodeStore}, store.WellFormed →
    (store.addContent (Branch.ofNodes nodes)).2.1.map
          (store.addContent (Branch.ofNodes nodes)).1.branch =
        Branch.ofNodes (Node.flattenContent nodes) ∧
      (store.addContent (Branch.ofNodes nodes)).2.2.map
          (store.addContent (Branch.ofNodes nodes)).1.branch =
        Branch.ofNodes (nodes.filter Node.isParagraphProps)
  | [], store, wellFormed => ⟨rfl, rfl⟩
  | node :: rest, store, wellFormed => by
      have kind : (Branch.ofNode node).kind = node.kind := Branch.kind_ofNode node
      cases isProps : node.isParagraphProps with
      | true =>
          rcases adds_graft (.ofNode node) wellFormed with ⟨props, top⟩
          rcases branches_addContent rest props.wellFormed with ⟨lifted, others⟩
          have grown := adds_addContent (Branch.ofNodes rest) props.wellFormed
          have isKind : (Branch.ofNode node).kind = .paragraphProps := by
            rw [kind]
            simpa [Node.isParagraphProps] using isProps
          rw [Branch.ofNodes, addContent, if_pos isKind, Node.flattenContent, if_pos isProps,
            List.filter_cons_of_pos isProps, Branch.ofNodes]
          refine ⟨lifted, ?_⟩
          rw [List.map_cons, others, grown.branch_eq props.wellFormed
            (props.inRange _ List.mem_cons_self), top]
      | false =>
          have first := adds_addFlat (.ofNode node) wellFormed
          have isKind : (Branch.ofNode node).kind ≠ .paragraphProps := by
            rw [kind]
            simpa [Node.isParagraphProps] using isProps
          rcases branches_addContent rest first.wellFormed with ⟨lifted, others⟩
          have grown := adds_addContent (Branch.ofNodes rest) first.wellFormed
          rw [Branch.ofNodes, addContent, if_neg isKind, Node.flattenContent, isProps,
            List.filter_cons_of_neg (by simp [isProps])]
          refine ⟨?_, others⟩
          simp only [Bool.false_eq_true, if_false, Branch.ofNodes_append, List.map_append, lifted,
            grown.map_branch_eq first.wellFormed first.inRange, branches_addFlat node wellFormed]

end

/-- What the flat form of a store is made of. -/
private theorem adds_flatten (root : Branch) :
    Adds empty (empty.addFlatAll root.children).1 ((empty.addFlatAll root.children).2 ++ []) := by
  rw [List.append_nil]
  exact adds_addFlatAll root.children wellFormed_empty

theorem wellRooted_flatten (source : NodeStore) : source.flatten.WellRooted :=
  wellRooted_rooted ((adds_flatten _).addOver _).1

/-- The flat form of a store represents the flat form of its document. -/
theorem Represents.flatten (represents : source.Represents document) :
    source.flatten.Represents document.flatten := by
  have built := (adds_flatten (.ofNode document)).addOver document.label
  have branches := branches_addFlatAll document.children wellFormed_empty
  rw [NodeStore.flatten, represents.branch_root, Branch.label_ofNode]
  refine represents_rooted built.1 (built.2.trans ?_)
  rw [Branch.children_ofNode, branches]
  cases document <;> rfl

/-! ## Regrouping -/

/-- A node of the flat form as regrouping rebuilds it. -/
def rebuildOf (node : Node) : Rebuild :=
  ⟨.ofNode node, fun store => store.addRegrouped (.ofNode node)⟩

theorem rebuildsOf_ofNodes (nodes : List Node) :
    rebuildsOf (Branch.ofNodes nodes) = nodes.map rebuildOf := by
  induction nodes with
  | nil => rfl
  | cons node rest ih => rw [Branch.ofNodes, rebuildsOf, ih, List.map_cons, rebuildOf]

theorem allAdd_rebuildOf (nodes : List Node) : Rebuild.AllAdd (nodes.map rebuildOf) := by
  rw [← rebuildsOf_ofNodes]
  exact allAdd_rebuildsOf _

/-- The nodes that regrouping is known to rebuild as it does in the document tree. -/
def AllRegrouped (nodes : List Node) : Prop :=
  ∀ node ∈ nodes, ∀ store : NodeStore, store.WellFormed →
    (store.addRegrouped (.ofNode node)).1.branch (store.addRegrouped (.ofNode node)).2 =
      .ofNode node.regroup

theorem branches_addEach : ∀ {nodes : List Node}, AllRegrouped nodes →
    ∀ {store : NodeStore}, store.WellFormed →
      (store.addEach (nodes.map rebuildOf)).2.map
          (store.addEach (nodes.map rebuildOf)).1.branch =
        Branch.ofNodes (nodes.map Node.regroup)
  | [], _, _, _ => rfl
  | node :: rest, all, store, wellFormed => by
      rcases List.forall_mem_cons.1 all with ⟨first, others⟩
      have adds := adds_addRegrouped (.ofNode node) wellFormed
      have grown := adds_addEach (allAdd_rebuildOf rest) adds.wellFormed
      have below := branches_addEach others adds.wellFormed
      have kept := grown.branch_eq adds.wellFormed (adds.inRange _ List.mem_cons_self)
      rw [first store wellFormed] at kept
      rw [List.map_cons, List.map_cons, Branch.ofNodes, addEach, List.map_cons]
      exact congr (congrArg List.cons kept) below

/-- A paragraph mark takes in the rest of its group. -/
private theorem branches_addGroup_mark {left : List Node} (all : AllRegrouped left)
    (wellFormed : store.WellFormed) {name : QName} (paragraph : name.kind = .paragraph)
    (attrs : List Attr) (props : List Node) :
    (store.addGroup ((left ++ [Node.element name attrs props]).map rebuildOf)).2.map
        (store.addGroup ((left ++ [Node.element name attrs props]).map rebuildOf)).1.branch =
      [.ofNode (.element name attrs (props ++ left.map Node.regroup))] := by
  have alloc := Adds.alloc wellFormed (.element name attrs)
  rcases adds_graftAll (Branch.ofNodes props) alloc.wellFormed with ⟨copies, below⟩
  have members := adds_addEach (allAdd_rebuildOf left) copies.wellFormed
  have filled := (Adds.fill wellFormed (copies.trans members)).2
  rw [copies.map_branch_append members, below, branches_addEach all copies.wellFormed] at filled
  have isLast : ((left ++ [Node.element name attrs props]).map rebuildOf).getLast?.map
      Rebuild.source = some (.mk (.element name attrs) (Branch.ofNodes props)) := by
    simp [rebuildOf, Branch.ofNode]
  have others : ((left ++ [Node.element name attrs props]).map rebuildOf).dropLast =
      left.map rebuildOf := by simp
  have kind : (Label.element name attrs).kind = .paragraph := paragraph
  rw [addGroup, isLast]
  simp only [kind, if_true, others, List.map_cons, List.map_nil, filled, Branch.ofNode,
    Branch.ofNodes_append]

/-- A group becomes what it becomes in the document tree. -/
theorem branches_addGroup {nodes : List Node} (all : AllRegrouped nodes)
    (wellFormed : store.WellFormed) :
    (store.addGroup (nodes.map rebuildOf)).2.map
        (store.addGroup (nodes.map rebuildOf)).1.branch =
      Branch.ofNodes (Node.closeGroup (Node.membersOf nodes)) := by
  rcases List.eq_nil_or_concat nodes with rfl | ⟨left, last, rfl⟩
  · rfl
  rw [List.concat_eq_append] at all ⊢
  cases isMark : last.isParagraph with
  | true =>
      rcases Node.exists_of_isParagraph isMark with ⟨name, attrs, props, rfl, paragraph⟩
      rw [branches_addGroup_mark (fun node member => all node (List.mem_append_left _ member))
        wellFormed paragraph, Node.membersOf_eq_map]
      simp [Node.closeGroup, paragraph, Branch.ofNodes, Function.comp_def]
  | false =>
      have isLast : ((left ++ [last]).map rebuildOf).getLast?.map Rebuild.source =
          some (.mk last.label (Branch.ofNodes last.children)) := by
        simp only [List.map_append, List.map_cons, List.map_nil, List.getLast?_concat,
          Option.map_some, rebuildOf]
        cases last <;> rfl
      have kind : last.kind ≠ .paragraph := by simpa [Node.isParagraph] using isMark
      have kind : last.label.kind ≠ .paragraph := kind
      rw [addGroup, isLast, Node.closeGroup_of_not_paragraph isMark]
      simp only [kind, if_false, branches_addEach all wellFormed]

theorem branches_addGroups : ∀ {groups : List (List Node)},
    (∀ group ∈ groups, AllRegrouped group) → ∀ {store : NodeStore}, store.WellFormed →
      (store.addGroups (groups.map (·.map rebuildOf))).2.map
          (store.addGroups (groups.map (·.map rebuildOf))).1.branch =
        Branch.ofNodes (groups.flatMap fun group => Node.closeGroup (Node.membersOf group))
  | [], _, _, _ => rfl
  | group :: rest, all, store, wellFormed => by
      rw [List.forall_mem_cons] at all
      have first := adds_addGroup (allAdd_rebuildOf group) wellFormed
      have groups : ∀ others ∈ rest.map (·.map rebuildOf), Rebuild.AllAdd others :=
        List.forall_mem_map.2 fun others _ => allAdd_rebuildOf others
      rw [List.map_cons, addGroups,
        first.map_branch_append (adds_addGroups groups first.wellFormed),
        branches_addGroup all.1 wellFormed, branches_addGroups all.2 first.wellFormed,
        List.flatMap_cons, Branch.ofNodes_append]

/-- Siblings become what they become in the document tree. -/
theorem branches_addSiblings {nodes : List Node} (all : AllRegrouped nodes)
    (wellFormed : store.WellFormed) :
    (store.addSiblings (nodes.map rebuildOf)).2.map
        (store.addSiblings (nodes.map rebuildOf)).1.branch =
      Branch.ofNodes (Node.regroupAll nodes) := by
  have marks : (nodes.map rebuildOf).any (·.source.kind == .paragraph) =
      nodes.any Node.isParagraph := by
    simp only [List.any_map, Function.comp_def, rebuildOf, Branch.kind_ofNode]
    rfl
  have groups : groupsAfter (·.source.isBlockLevel) (nodes.map rebuildOf) =
      (groupsAfter (·.isBlockLevel) nodes).map (·.map rebuildOf) := by
    rw [groupsAfter_map]
    simp only [rebuildOf, Branch.isBlockLevel_ofNode]
  cases marked : nodes.any Node.isParagraph with
  | true =>
      rw [addSiblings, marks, marked, if_pos rfl, groups, Node.regroupAll_eq_flatMap]
      exact branches_addGroups (fun group member node among =>
        all node (subset_of_mem_groupsAfter member among)) wellFormed
  | false =>
      have unmarked : Node.regroupAll nodes = nodes.map Node.regroup :=
        Node.regroupAll_of_unmarked (List.any_eq_false.1 marked)
      rw [addSiblings, marks, marked, if_neg Bool.false_ne_true, unmarked,
        branches_addEach all wellFormed]

theorem branch_addRegrouped (node : Node) : ∀ store : NodeStore, store.WellFormed →
    (store.addRegrouped (.ofNode node)).1.branch (store.addRegrouped (.ofNode node)).2 =
      .ofNode node.regroup := by
  induction node using Node.treeInduction with
  | element name attrs children ih =>
      intro store wellFormed
      have below := adds_addSiblings (allAdd_rebuildOf children) wellFormed
      rw [← List.append_nil (store.addSiblings (children.map rebuildOf)).2] at below
      have built := (below.addOver (.element name attrs)).2
      have other : (Label.element name attrs).kind ≠ .charData := name.kind_ne_charData
      rw [branches_addSiblings ih wellFormed] at built
      rw [Branch.ofNode, addRegrouped, if_neg other, rebuildsOf_ofNodes, built,
        Node.regroup_element, Branch.ofNode]
  | text content | comment content =>
      intro store wellFormed
      simp only [Branch.ofNode, addRegrouped, Label.kind, if_true, (adds_graft _ wellFormed).2,
        Node.regroup]

theorem wellRooted_regroup (source : NodeStore) : source.regroup.WellRooted :=
  wellRooted_rooted (adds_addRegrouped _ wellFormed_empty)

/-- A store is regrouped to one of the regrouped document. -/
theorem Represents.regroup (represents : source.Represents document) :
    source.regroup.Represents document.regroup := by
  rw [NodeStore.regroup, represents.branch_root]
  exact represents_rooted (adds_addRegrouped _ wellFormed_empty)
    (branch_addRegrouped document _ wellFormed_empty)

/-! ## Placeholders -/

section Resolved

variable {spell : Term → QName} {text : String}

theorem ofNode_textRun (formatting : List Node) :
    Branch.ofNode (Node.textRun spell formatting text) =
      .mk (.element (spell Term.run) [])
        (Branch.ofNodes formatting ++ [.ofNode (Node.runTextElement spell text)]) := by
  rw [Node.textRun, Branch.ofNode, Branch.ofNodes_append]
  rfl

mutual

theorem branch_addResolved : ∀ (node : Node) {outer : Kind} {store : NodeStore},
    store.WellFormed →
      (store.addResolved spell text outer (.ofNode node)).1.branch
          (store.addResolved spell text outer (.ofNode node)).2 =
        .ofNode (node.resolveIn spell text outer)
  | .element name attrs children, outer, store, wellFormed => by
      rw [Branch.ofNode, addResolved]
      split
      case h_1 charData => exact absurd charData name.kind_ne_charData
      case h_2 isPlaceholder =>
        have run := adds_graft (.ofNode (Node.textRun spell children text)) wellFormed
        have isPlaceholder : name.kind = .placeholder := isPlaceholder
        rw [Node.resolveIn, if_pos isPlaceholder, ← ofNode_textRun]
        split
        · rw [(run.1.addAround _).2, run.2]
          rfl
        · exact run.2
      case h_3 other =>
        have alloc := Adds.alloc wellFormed (.element name attrs)
        have other : name.kind ≠ .placeholder := other
        refine (Adds.fill wellFormed (adds_addResolvedAll _ alloc.wellFormed)).2.trans ?_
        rw [branches_addResolvedAll children alloc.wellFormed, Node.resolveIn, if_neg other]
        rfl
  | .text content, outer, store, wellFormed => by
      simp only [Branch.ofNode, addResolved, Label.kind, (adds_graft _ wellFormed).2,
        Node.resolveIn]
  | .comment content, outer, store, wellFormed => by
      simp only [Branch.ofNode, addResolved, Label.kind, (adds_graft _ wellFormed).2,
        Node.resolveIn]

theorem branches_addResolvedAll : ∀ (nodes : List Node) {outer : Kind} {store : NodeStore},
    store.WellFormed →
      (store.addResolvedAll spell text outer (Branch.ofNodes nodes)).2.map
          (store.addResolvedAll spell text outer (Branch.ofNodes nodes)).1.branch =
        Branch.ofNodes (Node.resolveAll spell text outer nodes)
  | [], _, _, _ => rfl
  | node :: rest, outer, store, wellFormed => by
      have first : Adds store (store.addResolved spell text outer (.ofNode node)).1
          [(store.addResolved spell text outer (.ofNode node)).2] :=
        adds_addResolved _ wellFormed
      rw [Branch.ofNodes, addResolvedAll, Node.resolveAll, Branch.ofNodes]
      refine (first.map_branch_append (adds_addResolvedAll _ first.wellFormed)).trans ?_
      rw [branches_addResolvedAll rest first.wellFormed, List.map_cons,
        branch_addResolved node wellFormed]
      rfl

end

end Resolved

theorem spell_eq (represents : source.Represents document) : source.spell = document.spell := by
  funext term
  rw [spell, Node.spell, Node.attrs, represents.toWellFormed.label_eq represents.branch_root]

theorem wellRooted_resolvePlaceholders (source : NodeStore) (text : String) :
    (source.resolvePlaceholders text).WellRooted :=
  wellRooted_rooted (adds_addResolved _ wellFormed_empty)

/-- The placeholders of a store are resolved as those of its document. -/
theorem Represents.resolvePlaceholders (represents : source.Represents document) (text : String) :
    (source.resolvePlaceholders text).Represents (document.resolvePlaceholders text) := by
  rw [NodeStore.resolvePlaceholders, represents.branch_root, spell_eq represents]
  exact represents_rooted (adds_addResolved _ wellFormed_empty)
    (branch_addResolved document wellFormed_empty)

/-! ## Runs in the body -/

section Wrapped

variable {spell : Term → QName}

mutual

theorem branch_addWrapped : ∀ (node : Node) {store : NodeStore}, store.WellFormed →
    (store.addWrapped spell (.ofNode node)).1.branch (store.addWrapped spell (.ofNode node)).2 =
      .ofNode (node.wrapRunsIn spell)
  | .element name attrs children, store, wellFormed => by
      have alloc := Adds.alloc wellFormed (.element name attrs)
      have other : (Label.element name attrs).kind ≠ .charData := name.kind_ne_charData
      rw [Branch.ofNode, addWrapped, if_neg other]
      refine (Adds.fill wellFormed (adds_addWrappedAll _ alloc.wellFormed)).2.trans ?_
      rw [branches_addWrappedAll children alloc.wellFormed, Node.wrapRunsIn]
      rfl
  | .text content, store, wellFormed => by
      simp only [Branch.ofNode, addWrapped, Label.kind, if_true, (adds_graft _ wellFormed).2,
        Node.wrapRunsIn]
  | .comment content, store, wellFormed => by
      simp only [Branch.ofNode, addWrapped, Label.kind, if_true, (adds_graft _ wellFormed).2,
        Node.wrapRunsIn]

theorem branches_addWrappedAll : ∀ (nodes : List Node) {outer : Kind} {store : NodeStore},
    store.WellFormed →
      (store.addWrappedAll spell outer (Branch.ofNodes nodes)).2.map
          (store.addWrappedAll spell outer (Branch.ofNodes nodes)).1.branch =
        Branch.ofNodes (Node.wrapRunsAll spell outer nodes)
  | [], _, _, _ => rfl
  | node :: rest, outer, store, wellFormed => by
      have inner : Adds store (store.addWrapped spell (.ofNode node)).1
          [(store.addWrapped spell (.ofNode node)).2] := adds_addWrapped _ wellFormed
      have below := branch_addWrapped node wellFormed
      rw [Branch.ofNodes, addWrappedAll, Node.wrapRunsAll, Branch.ofNodes, Branch.kind_ofNode]
      split
      case isTrue =>
        rcases inner.addAround (.element (spell Term.paragraph) []) with ⟨first, top⟩
        refine (first.map_branch_append (adds_addWrappedAll _ first.wellFormed)).trans ?_
        rw [branches_addWrappedAll rest first.wellFormed, List.map_cons, top, below]
        rfl
      case isFalse =>
        refine (inner.map_branch_append (adds_addWrappedAll _ inner.wellFormed)).trans ?_
        rw [branches_addWrappedAll rest inner.wellFormed, List.map_cons, below]
        rfl

end

end Wrapped

theorem wellRooted_wrapBodyRuns (source : NodeStore) : source.wrapBodyRuns.WellRooted :=
  wellRooted_rooted (adds_addWrapped _ wellFormed_empty)

/-- The runs in the body of a store get paragraphs as those of its document. -/
theorem Represents.wrapBodyRuns (represents : source.Represents document) :
    source.wrapBodyRuns.Represents document.wrapBodyRuns := by
  rw [NodeStore.wrapBodyRuns, represents.branch_root, spell_eq represents]
  exact represents_rooted (adds_addWrapped _ wellFormed_empty)
    (branch_addWrapped document wellFormed_empty)

/-- The store of a document represents it. -/
theorem represents_ofNode (document : Node) : (NodeStore.ofNode document).Represents document := by
  rcases adds_graft (.ofNode document) wellFormed_empty with ⟨adds, below⟩
  have top : (empty.graft (.ofNode document)).2 = (NodeStore.ofNode document).root := by
    rw [NodeStore.ofNode, adds.root_eq]
    cases document <;> rfl
  rw [top] at adds below
  exact ⟨⟨adds.wellFormed, adds.inRange _ List.mem_cons_self,
    adds.detached _ List.mem_cons_self⟩, below⟩

end NodeStore

end TemplateFill
