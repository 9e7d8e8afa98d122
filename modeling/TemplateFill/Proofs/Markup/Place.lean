import TemplateFill.Bookmark.Position
import TemplateFill.Proofs.Markup.Tree

/-!
# Ways down a document

A position is a way from the root to a node: at every step a child is chosen among its
siblings.  What is known of the siblings that are passed by on the left is what makes the node
at the end the first of its sort in document order.
-/

namespace TemplateFill.Node

/-- A list is cut at an index in one way only. -/
theorem append_cons_inj {α : Type} {left left' right right' : List α} {value value' : α}
    (equal : left ++ value :: right = left' ++ value' :: right')
    (lengths : left.length = left'.length) : left = left' ∧ value = value' ∧ right = right' := by
  obtain ⟨lefts, rights⟩ := List.append_inj equal lengths
  obtain ⟨values, rests⟩ := List.cons.inj rights
  exact ⟨lefts, values, rests⟩

/-- Two places in one list, the first before the second. -/
theorem exists_between {α : Type} {left left' right right' : List α} {first second : α}
    (equal : left ++ first :: right = left' ++ second :: right')
    (shorter : left.length < left'.length) :
    ∃ inside, left' = left ++ first :: inside ∧ right = inside ++ second :: right' := by
  rcases List.append_eq_append_iff.1 equal with ⟨extra, longer, rest⟩ | ⟨extra, longer, _⟩
  · cases extra with
    | nil => simp [longer] at shorter
    | cons head inside =>
        rw [List.cons_append] at rest
        obtain ⟨rfl, tails⟩ := List.cons.inj rest
        exact ⟨inside, longer, tails⟩
  · rw [longer, List.length_append] at shorter
    omega

/-- The way along a position leads from a node to `target`, and `passes` holds at each step of
the siblings on the left and of the child that is entered. -/
inductive Reaches (passes : List Node → Node → Prop) : Node → Path → Node → Prop where
  | here {node : Node} : Reaches passes node [] node
  | down {name : QName} {attrs : List Attr} {left : List Node} {child : Node}
      {right : List Node} {rest : Path} {target : Node} :
      passes left child → Reaches passes child rest target →
      Reaches passes (.element name attrs (left ++ child :: right)) (left.length :: rest) target

section Reaches

variable {passes passes' : List Node → Node → Prop} {node target target' : Node} {path : Path}

theorem Reaches.at?_eq (reached : Reaches passes node path target) :
    node.at? path = some target := by
  induction reached with
  | here => rfl
  | down _ _ ih => simpa [at?] using ih

theorem Reaches.mono (implies : ∀ left child, passes left child → passes' left child)
    (reached : Reaches passes node path target) : Reaches passes' node path target := by
  induction reached with
  | here => exact .here
  | down passing _ ih => exact .down (implies _ _ passing) ih

theorem Reaches.target_mem (reached : Reaches passes node path target) :
    target ∈ node.selfAndDescendants := by
  induction reached with
  | here => exact self_mem_selfAndDescendants _
  | down _ _ ih => exact mem_selfAndDescendants_element.2 (.inr ⟨_, by simp, ih⟩)

/-- A way goes on into a child of the node at its end. -/
theorem Reaches.concat {name : QName} {attrs : List Attr} {left right : List Node}
    (reached : Reaches passes node path (element name attrs (left ++ target :: right)))
    (passing : passes left target) : Reaches passes node (path ++ [left.length]) target := by
  generalize goal : element name attrs (left ++ target :: right) = parent at reached
  induction reached with
  | here => exact goal ▸ .down passing .here
  | down step _ ih => exact .down step (ih goal)

/-- The last step of a way leads from a node to one of its children. -/
theorem Reaches.exists_parent {index : Nat}
    (reached : Reaches passes node (path ++ [index]) target) :
    ∃ name attrs left right, index = left.length ∧ passes left target ∧
      Reaches passes node path (element name attrs (left ++ target :: right)) := by
  induction path generalizing node with
  | nil =>
      cases reached with
      | @down name attrs left child right _ _ passing inner =>
          cases inner with
          | here => exact ⟨name, attrs, left, right, rfl, passing, .here⟩
  | cons first rest ih =>
      rw [List.cons_append] at reached
      cases reached with
      | down step inner =>
          obtain ⟨name, attrs, left, right, same, passing, way⟩ := ih inner
          exact ⟨name, attrs, left, right, same, passing, .down step way⟩

/-- Two accounts of one way make one. -/
theorem Reaches.and (reached : Reaches passes node path target)
    (reached' : Reaches passes' node path target') :
    Reaches (fun left child => passes left child ∧ passes' left child) node path target := by
  induction reached with
  | here => exact .here
  | @down name attrs left child right rest target passing _ ih =>
      generalize whole : left ++ child :: right = children at reached'
      generalize index : left.length = position at reached'
      cases reached' with
      | down passing' inner =>
          obtain ⟨rfl, rfl, rfl⟩ := append_cons_inj whole index
          exact .down ⟨passing, passing'⟩ (ih inner)

/-- One way, one end. -/
theorem Reaches.target_eq (reached : Reaches passes node path target)
    (reached' : Reaches passes' node path target') : target = target' :=
  Option.some.inj (reached.at?_eq.symm.trans reached'.at?_eq)

end Reaches

/-! ## Changing the node at a position -/

theorem updateAt_down (change : Node → Node) (name : QName) (attrs : List Attr)
    (left : List Node) (child : Node) (right : List Node) (rest : Path) :
    updateAt change (.element name attrs (left ++ child :: right)) (left.length :: rest) =
      .element name attrs (left ++ updateAt change child rest :: right) := by
  have inside : left.length < (left ++ child :: right).length := by simp
  simp [updateAt, mapChildren, List.modify_eq_take_cons_drop inside]

/-- The document with another node at a position. -/
def replaceAt (root : Node) (path : Path) (node : Node) : Node :=
  root.updateAt (fun _ => node) path

theorem replaceAt_here (root node : Node) : root.replaceAt [] node = node := rfl

theorem replaceAt_down (name : QName) (attrs : List Attr) (left : List Node) (child : Node)
    (right : List Node) (rest : Path) (node : Node) :
    (element name attrs (left ++ child :: right)).replaceAt (left.length :: rest) node =
      .element name attrs (left ++ child.replaceAt rest node :: right) :=
  updateAt_down _ name attrs left child right rest

section ReplaceAt

variable {passes : List Node → Node → Prop} {root target : Node} {path : Path}

/-- A change is a replacement by the changed node. -/
theorem Reaches.updateAt_eq (change : Node → Node) (reached : Reaches passes root path target) :
    root.updateAt change path = root.replaceAt path (change target) := by
  induction reached with
  | here => rfl
  | down _ _ ih => rw [updateAt_down, replaceAt_down, ih]

theorem Reaches.label_replaceAt {node : Node} (reached : Reaches passes root path target)
    (keeps : node.label = target.label) : (root.replaceAt path node).label = root.label := by
  cases reached with
  | here => exact keeps
  | down _ _ => rw [replaceAt_down, label_element, label_element]

end ReplaceAt

/-- What holds of all nodes above a child holds of all nodes that are entered on the way to its
parent. -/
theorem Reaches.of_enclosing {passes : List Node → Node → Prop} {root target : Node}
    {path : Path} {index : Nat} {property : Node → Prop}
    (reached : Reaches passes root path target)
    (above : ∀ outer ∈ root.enclosing (path ++ [index]), property outer) :
    Reaches (fun _ child => property child) root path target := by
  induction reached with
  | here => exact .here
  | @down name attrs left child right rest target _ inner ih =>
      have found : (left ++ child :: right)[left.length]? = some child := by simp
      have deeper : ∀ outer ∈ child.enclosing (rest ++ [index]), property outer := by
        intro outer member
        apply above
        rw [List.cons_append, enclosing, children_element, found]
        exact List.mem_cons_of_mem _ member
      refine .down (deeper child ?_) (ih deeper)
      cases rest <;> exact List.mem_cons_self

/-- And the other way round. -/
theorem Reaches.enclosing_of {passes : List Node → Node → Prop} {root target : Node} {path : Path}
    {property : Node → Prop} (index : Nat) (reached : Reaches passes root path target)
    (entered : ∀ left child, passes left child → property child) (top : property root) :
    ∀ outer ∈ root.enclosing (path ++ [index]), property outer := by
  induction reached with
  | @here node =>
      intro outer member
      rw [List.nil_append, enclosing] at member
      rcases List.mem_cons.1 member with rfl | below
      · exact top
      · cases found : node.children[index]? with
        | none =>
            rw [found] at below
            cases below
        | some child =>
            rw [found] at below
            cases below
  | @down name attrs left child right rest target passing _ ih =>
      have found : (left ++ child :: right)[left.length]? = some child := by simp
      rw [List.cons_append, enclosing, children_element, found]
      exact List.forall_mem_cons.2 ⟨top, ih (entered left child passing)⟩

/-- A way stays a way when the node at its end is replaced. -/
theorem Reaches.replaceAt {passes : List Node → Node → Prop} {root target node : Node}
    {path : Path} (reached : Reaches passes root path target) (keeps : node.label = target.label)
    (byLabel : ∀ left child child', child'.label = child.label → passes left child →
      passes left child') : Reaches passes (root.replaceAt path node) path node := by
  induction reached with
  | here => exact .here
  | down passing inner ih =>
      rw [replaceAt_down]
      exact .down (byLabel _ _ _ (inner.label_replaceAt keeps) passing) (ih keeps)

/-- What is put at the end of a way is there. -/
theorem Reaches.mem_replaceAt {passes : List Node → Node → Prop} {root target : Node}
    {path : Path} (reached : Reaches passes root path target) (node : Node) :
    node ∈ (root.replaceAt path node).selfAndDescendants := by
  induction reached with
  | here => exact self_mem_selfAndDescendants node
  | down passing inner ih =>
      rw [replaceAt_down]
      exact mem_selfAndDescendants_element.2 (.inr ⟨_, by simp, ih⟩)

section EveryLabel

variable {property : Label → Prop} {passes : List Node → Node → Prop} {root target : Node}
  {path : Path}

theorem Reaches.everyLabel (reached : Reaches passes root path target)
    (every : EveryLabel property root) : EveryLabel property target := by
  induction reached with
  | here => exact every
  | down _ _ ih => exact ih ((everyLabel_element.1 every).2 _ (by simp))

theorem Reaches.everyLabel_steps (reached : Reaches passes root path target)
    (every : EveryLabel property root) :
    Reaches (fun left child => (∀ node ∈ left, EveryLabel property node) ∧ property child.label)
      root path target := by
  induction reached with
  | here => exact .here
  | down _ _ ih =>
      have below := (everyLabel_element.1 every).2
      simp only [List.forall_mem_append, List.forall_mem_cons] at below
      exact .down ⟨below.1, below.2.1.self⟩ (ih below.2.1)

theorem Reaches.everyLabel_children (reached : Reaches passes root path target)
    (every : ∀ child ∈ root.children, EveryLabel property child) :
    ∀ child ∈ target.children, EveryLabel property child := by
  cases reached with
  | here => exact every
  | down _ inner =>
      have below := inner.everyLabel (every _ (by simp))
      exact fun child member => below.child member

theorem Reaches.everyLabel_replaceAt {node : Node} (reached : Reaches passes root path target)
    (every : EveryLabel property root) (fresh : EveryLabel property node) :
    EveryLabel property (root.replaceAt path node) := by
  induction reached with
  | here => exact fresh
  | down _ _ ih =>
      rcases everyLabel_element.1 every with ⟨top, below⟩
      simp only [List.forall_mem_append, List.forall_mem_cons] at below
      rw [replaceAt_down]
      refine everyLabel_element.2 ⟨top, ?_⟩
      simp only [List.forall_mem_append, List.forall_mem_cons]
      exact ⟨below.1, ih below.2.1, below.2.2⟩

end EveryLabel

/-! ## The first node with a property -/

/-- No node at or below the siblings is accepted. -/
def NoneAmong (accept : Node → Bool) (nodes : List Node) : Prop :=
  ∀ node ∈ nodes, ∀ inner ∈ node.selfAndDescendants, accept inner = false

/-- Neither the entered child nor anything at or below its siblings on the left is accepted. -/
def PassesBy (accept : Node → Bool) (left : List Node) (child : Node) : Prop :=
  NoneAmong accept left ∧ accept child = false

/-- The first accepted node below a root, as the way that leads to it. -/
def IsFirst (accept : Node → Bool) (root : Node) (place : Path × Node) : Prop :=
  ∃ path name attrs left right,
    place.1 = path ++ [left.length] ∧
      Reaches (PassesBy accept) root path (.element name attrs (left ++ place.2 :: right)) ∧
      NoneAmong accept left ∧ accept place.2 = true

section First

variable {accept : Node → Bool}

/-- A property of nodes that their labels decide. -/
def ByLabel (accept : Node → Bool) : Prop :=
  ∀ left right : Node, left.label = right.label → accept left = accept right

/-- No node with this label is accepted. -/
def Refuses (accept : Node → Bool) (label : Label) : Prop :=
  ∀ node : Node, node.label = label → accept node = false

theorem ByLabel.refuses_iff (byLabel : ByLabel accept) {node : Node} :
    Refuses accept node.label ↔ accept node = false := by
  constructor
  · exact fun refuses => refuses node rfl
  · intro refused other same
    rw [byLabel other node same, refused]

theorem ByLabel.everyLabel_iff (byLabel : ByLabel accept) {node : Node} :
    EveryLabel (Refuses accept) node ↔ ∀ inner ∈ node.selfAndDescendants, accept inner = false := by
  simp only [EveryLabel, byLabel.refuses_iff]

theorem ByLabel.noneAmong_iff (byLabel : ByLabel accept) {nodes : List Node} :
    NoneAmong accept nodes ↔ ∀ node ∈ nodes, EveryLabel (Refuses accept) node := by
  simp only [NoneAmong, byLabel.everyLabel_iff]

theorem noneAmong_append {left right : List Node} :
    NoneAmong accept (left ++ right) ↔ NoneAmong accept left ∧ NoneAmong accept right :=
  List.forall_mem_append

theorem noneAmong_cons {node : Node} {rest : List Node} :
    NoneAmong accept (node :: rest) ↔
      (∀ inner ∈ node.selfAndDescendants, accept inner = false) ∧ NoneAmong accept rest :=
  List.forall_mem_cons

/-- Nothing below a root is found when nothing at or below its children is accepted. -/
theorem findPlaced?_eq_none_iff {root : Node} :
    root.findPlaced? accept = none ↔ NoneAmong accept root.children := by
  have through : root.findPlaced? accept = none ↔
      ∀ inner ∈ root.descendants, accept inner = false := by
    rw [findPlaced?, List.find?_eq_none, ← placed_map_snd root, List.forall_mem_map]
    simp
  cases root with
  | element name attrs children =>
      rw [through, descendants_element]
      constructor
      · intro every node member inner below
        exact every inner (mem_descendantsOfAll.2 ⟨node, member, below⟩)
      · intro none inner below
        rcases mem_descendantsOfAll.1 below with ⟨node, member, inside⟩
        exact none node member inner inside
  | text | comment => simp [through, descendants, NoneAmong, children]

private theorem placedFrom_append (index : Nat) (left right : List Node) :
    placedFrom index (left ++ right) =
      placedFrom index left ++ placedFrom (index + left.length) right := by
  induction left generalizing index with
  | nil => rfl
  | cons node rest ih =>
      have shifted : index + (rest.length + 1) = index + 1 + rest.length := by omega
      simp only [List.cons_append, placedFrom, ih, List.length_cons, shifted, List.append_assoc]

/-- Siblings without an accepted node are passed by. -/
private theorem find?_placed_skip {name : QName} {attrs : List Attr} {left rest : List Node}
    (none : NoneAmong accept left) :
    (element name attrs (left ++ rest)).findPlaced? accept =
      (placedFrom left.length rest).find? fun place => accept place.2 := by
  have skipped : ((element name attrs left).placed.find? fun place => accept place.2) = .none :=
    findPlaced?_eq_none_iff.2 none
  simp only [placed] at skipped
  simp only [findPlaced?, placed, placedFrom_append, List.find?_append, skipped, Option.none_or,
    Nat.zero_add]

/-- A way that passes by all accepted nodes finds the first one. -/
theorem findPlaced?_of_reaches {root : Node} {path : Path} {name : QName} {attrs : List Attr}
    {left right : List Node} {found : Node}
    (reached : Reaches (PassesBy accept) root path (.element name attrs (left ++ found :: right)))
    (none : NoneAmong accept left) (accepted : accept found = true) :
    root.findPlaced? accept = some (path ++ [left.length], found) := by
  generalize goal : element name attrs (left ++ found :: right) = target at reached
  induction reached with
  | here =>
      rw [← goal, find?_placed_skip none]
      simp [placedFrom, accepted]
  | @down _ _ before child after rest _ passing _ ih =>
      rcases passing with ⟨skipped, refused⟩
      have inner : (child.placed.find? fun place => accept place.2) = _ := ih goal
      rw [find?_placed_skip skipped, placedFrom, List.cons_append,
        List.find?_cons_of_neg (by simp [refused]), List.find?_append, List.find?_map]
      change (Option.map _ (child.placed.find? fun place => accept place.2)).or _ = _
      rw [inner]
      rfl

/-- Where something is accepted there is a first accepted node. -/
theorem exists_isFirst {root : Node} (some : ¬ NoneAmong accept root.children) :
    ∃ place, IsFirst accept root place := by
  induction root using treeInduction with
  | element name attrs children ih =>
      -- The first child that has an accepted node at or below it.
      have found : (children.find? fun node => node.selfAndDescendants.any accept).isSome := by
        rw [List.find?_isSome]
        simpa [NoneAmong] using some
      rcases Option.isSome_iff_exists.1 found with ⟨child, first⟩
      rcases List.find?_eq_some_iff_append.1 first with ⟨inside, left, right, whole, before⟩
      have none : NoneAmong accept left := by
        intro node member inner below
        have refused := before node member
        simp only [Bool.not_eq_true', List.any_eq_false] at refused
        exact Bool.eq_false_iff.2 (refused inner below)
      subst whole
      cases accepted : accept child with
      | true =>
          exact ⟨([left.length], child), [], name, attrs, left, right, rfl, .here, none, accepted⟩
      | false =>
          have deeper : ¬ NoneAmong accept child.children := by
            intro nothing
            have unfound := findPlaced?_eq_none_iff.2 nothing
            rcases List.any_eq_true.1 inside with ⟨inner, below, isAccepted⟩
            rcases List.mem_cons.1 below with rfl | below
            · simp [accepted] at isAccepted
            · rw [← placed_map_snd child] at below
              rcases List.mem_map.1 below with ⟨place, member, rfl⟩
              exact List.find?_eq_none.1 unfound place member isAccepted
          obtain ⟨place, path, inName, inAttrs, inLeft, inRight, way, reached, clear, isAccepted⟩ :=
            ih child (by simp) deeper
          exact ⟨(left.length :: place.1, place.2), left.length :: path, inName, inAttrs, inLeft,
            inRight, by simp [way], .down ⟨none, accepted⟩ reached, clear, isAccepted⟩
  | text | comment => simp [NoneAmong, children] at some

/-- What is found is the first accepted node. -/
theorem findPlaced?_eq_some_iff {root : Node} {place : Path × Node} :
    root.findPlaced? accept = some place ↔ IsFirst accept root place := by
  have finds : ∀ first, IsFirst accept root first → root.findPlaced? accept = some first := by
    rintro ⟨_, found⟩ ⟨path, name, attrs, left, right, rfl, reached, none, accepted⟩
    exact findPlaced?_of_reaches reached none accepted
  constructor
  · intro found
    have present : ¬ NoneAmong accept root.children := by
      rw [← findPlaced?_eq_none_iff, found]
      exact Option.some_ne_none place
    obtain ⟨first, isFirst⟩ := exists_isFirst present
    rw [finds first isFirst] at found
    exact Option.some.inj found ▸ isFirst
  · exact finds place

end First

end TemplateFill.Node
