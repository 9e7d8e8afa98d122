import Mathlib.Data.List.Forall2
import Mathlib.Data.List.Induction
import TemplateFill.Bookmark.Position
import TemplateFill.Proofs.Store.Documents
import TemplateFill.Proofs.Store.Traversal

/-!
# Positions in stores

The nodes of a store that represents a document are found at the positions of the document's
nodes: a walk through the store visits them in the order in which the positions are listed, and
no node is at two of them.
-/

namespace TemplateFill

open Relation

/-- The node at a position is the last one above what is below it. -/
theorem Node.enclosing_concat {node inner : Node} {path : Path} {index : Nat}
    (found : node.at? path = some inner) :
    node.enclosing (path ++ [index]) = node.enclosing path ++ [inner] := by
  induction path generalizing node with
  | nil =>
      cases found
      cases step : inner.children[index]? <;> simp [Node.enclosing, step]
  | cons first rest ih =>
      rw [Node.at?, Option.bind_eq_some_iff] at found
      rcases found with ⟨child, isChild, found⟩
      rw [List.cons_append, Node.enclosing, Node.enclosing, isChild, Option.elim_some,
        Option.elim_some, ih found, List.cons_append]

namespace NodeStore

variable {store : NodeStore} {document : Node} {id top parent : NodeId} {path : Path}

/-! ## Positions -/

/-- The node that child indexes lead to. -/
def follow? (store : NodeStore) (top : NodeId) : Path → Option NodeId
  | [] => some top
  | index :: rest => (store.children top)[index]?.bind fun child => store.follow? child rest

theorem follow?_append (store : NodeStore) (top : NodeId) (path rest : Path) :
    store.follow? top (path ++ rest) =
      (store.follow? top path).bind fun id => store.follow? id rest := by
  induction path generalizing top with
  | nil => rfl
  | cons index path ih =>
      rw [List.cons_append, follow?, follow?]
      cases (store.children top)[index]? with
      | none => rfl
      | some child => exact ih child

/-- The last step of a way leads from a node to one of its children. -/
theorem follow?_concat {index : Nat} (reached : store.follow? top (path ++ [index]) = some id) :
    ∃ parent, store.follow? top path = some parent ∧
      (store.children parent)[index]? = some id := by
  rw [follow?_append, Option.bind_eq_some_iff] at reached
  rcases reached with ⟨parent, isParent, step⟩
  rw [follow?, Option.bind_eq_some_iff] at step
  rcases step with ⟨child, isChild, same⟩
  cases same
  exact ⟨parent, isParent, isChild⟩

/-- A node that is reached is the top of a node of the document. -/
theorem WellFormed.at?_of_follow? (wellFormed : store.WellFormed) {node : Node}
    (below : store.branch top = .ofNode node) (reached : store.follow? top path = some id) :
    ∃ inner, node.at? path = some inner ∧ store.branch id = .ofNode inner := by
  induction path generalizing top node with
  | nil =>
      cases reached
      exact ⟨node, rfl, below⟩
  | cons index rest ih =>
      rw [follow?, Option.bind_eq_some_iff] at reached
      rcases reached with ⟨child, isChild, reached⟩
      have siblings := congrArg (·[index]?) (wellFormed.map_branch_children below)
      rw [Branch.ofNodes_eq_map, List.getElem?_map, List.getElem?_map, isChild, Option.map_some,
        eq_comm, Option.map_eq_some_iff] at siblings
      rcases siblings with ⟨inner, found, same⟩
      rw [Node.at?, found]
      exact ih same.symm reached

/-- A node is at the position where a document has a node with its label. -/
def Sits (store : NodeStore) (top id : NodeId) (place : Path × Node) : Prop :=
  store.follow? top place.1 = some id ∧ store.label id = place.2.label

/-- Where siblings are those of a document, the nodes at and below them are at the positions of
the document's nodes. -/
private theorem sits_of_siblings {depth : Nat}
    (inside : ∀ {top node}, store.branchTo depth top = .ofNode node →
      List.Forall₂ (store.Sits top) (store.belowTo depth top) node.placed) :
    ∀ {left ids : List NodeId} {nodes : List Node}, store.children top = left ++ ids →
      ids.map (store.branchTo depth) = Branch.ofNodes nodes →
        List.Forall₂ (store.Sits top) (ids.flatMap fun child => child :: store.belowTo depth child)
          (Node.placedFrom left.length nodes)
  | _, [], [], _, _ => .nil
  | left, child :: ids, node :: nodes, children, below => by
      rw [List.map_cons, Branch.ofNodes, List.cons.injEq] at below
      have first : (store.children top)[left.length]? = some child := by
        rw [children, List.getElem?_append_right (Nat.le_refl _), Nat.sub_self]
        rfl
      have label : store.label child = node.label := by
        rw [← Branch.label_ofNode, ← below.1]
        cases depth <;> rfl
      have passed : store.children top = (left ++ [child]) ++ ids := by simpa using children
      have others := sits_of_siblings inside passed below.2
      rw [List.length_append] at others
      rw [List.flatMap_cons, Node.placedFrom]
      have enter : ∀ rest, store.follow? top (left.length :: rest) = store.follow? child rest :=
        fun rest => by rw [follow?, first, Option.bind_some]
      have here : store.Sits top child ([left.length], node) := ⟨enter [], label⟩
      have inner : List.Forall₂ (store.Sits top) (store.belowTo depth child)
          (node.placed.map fun inner => (left.length :: inner.1, inner.2)) :=
        List.forall₂_map_right_iff.2 ((inside below.1).imp fun _ place sits =>
          ⟨(enter place.1).trans sits.1, sits.2⟩)
      exact List.rel_append (.cons here inner) others

theorem sits_belowTo {depth : Nat} {node : Node}
    (below : store.branchTo depth top = .ofNode node) :
    List.Forall₂ (store.Sits top) (store.belowTo depth top) node.placed := by
  induction depth generalizing top node with
  | zero =>
      have none := congrArg Branch.children below
      rw [Branch.children_ofNode] at none
      cases node with
      | element name attrs children =>
          cases children with
          | nil => exact .nil
          | cons => cases none
      | text | comment => exact .nil
  | succ depth ih =>
      have siblings := congrArg Branch.children below
      rw [Branch.children_ofNode] at siblings
      have sits := sits_of_siblings ih (List.nil_append _).symm siblings
      rw [belowTo]
      cases node with
      | element name attrs children => exact sits
      | text | comment => exact sits

theorem Represents.at?_of_follow? (represents : store.Represents document)
    (reached : store.follow? store.root path = some id) :
    ∃ node, document.at? path = some node ∧ store.branch id = .ofNode node :=
  represents.toWellFormed.at?_of_follow? represents.branch_root reached

/-- The descendants of the root are at the positions of the document's nodes. -/
theorem Represents.sits_descendants (represents : store.Represents document) :
    List.Forall₂ (store.Sits store.root) (store.descendants store.root) document.placed := by
  rw [represents.toWellFormed.descendants_eq_belowTo]
  exact sits_belowTo represents.branch_root

/-- A node is at one position only. -/
theorem WellRooted.follow?_inj (wellRooted : store.WellRooted) {path' : Path}
    (reached : store.follow? store.root path = some id)
    (reached' : store.follow? store.root path' = some id) : path = path' := by
  have linked : ∀ {parent : NodeId} {index : Nat} {child : NodeId},
      (store.children parent)[index]? = some child → store.parent? child = some parent :=
    fun step => (wellRooted.linked _ _).1 (List.mem_of_getElem? step)
  have top : ∀ {parent : NodeId} {index : Nat},
      (store.children parent)[index]? ≠ some store.root := fun step => by
    have up := linked step
    rw [wellRooted.rootDetached] at up
    cases up
  induction path using List.reverseRecOn generalizing path' id with
  | nil =>
      cases reached
      rcases List.eq_nil_or_concat path' with rfl | ⟨path', index, rfl⟩
      · rfl
      · rw [List.concat_eq_append] at reached'
        rcases follow?_concat reached' with ⟨_, -, step⟩
        exact absurd step top
  | append_singleton path index ih =>
      rcases follow?_concat reached with ⟨parent, isParent, step⟩
      rcases List.eq_nil_or_concat path' with rfl | ⟨path', index', rfl⟩
      · cases reached'
        exact absurd step top
      · rw [List.concat_eq_append] at reached' ⊢
        rcases follow?_concat reached' with ⟨parent', isParent', step'⟩
        have same := (linked step).symm.trans (linked step')
        cases same
        rw [ih isParent isParent']
        have inside := (List.getElem?_eq_some_iff.1 step).1
        rw [(List.getElem?_inj inside (wellRooted.nodup parent)).1 (step.trans step'.symm)]

end NodeStore

end TemplateFill
