import Mathlib.Data.List.Nodup
import Mathlib.Data.List.Perm.Subperm
import TemplateFill.Proofs.Store.Adding

/-!
# Iterators over a store

Two iterators walk through a store: one goes down with a stack of the nodes that are still to be
visited, the other goes up along the parent links.  In a well-formed store both end.  The walk down
visits what is below a node in preorder, and the walk up is its converse.
-/

namespace TemplateFill

open Relation

/-- From a state an iterator yields these values and then ends. -/
inductive Yields {σ α : Type} (next? : σ → Option (α × σ)) : σ → List α → Prop where
  | ends {state : σ} (done : next? state = none) : Yields next? state []
  | goesOn {state next : σ} {value : α} {values : List α} (step : next? state = some (value, next))
      (others : Yields next? next values) : Yields next? state (value :: values)

namespace Yields

variable {σ α : Type} {next? : σ → Option (α × σ)} {state : σ} {values others : List α}

/-- An iterator that ends does not yield anything else. -/
theorem unique (yields : Yields next? state values) (yields' : Yields next? state others) :
    values = others := by
  induction yields generalizing others with
  | ends done =>
      cases yields' with
      | ends => rfl
      | goesOn step => rw [done] at step; cases step
  | goesOn step _ ih =>
      cases yields' with
      | ends done => rw [step] at done; cases done
      | goesOn step' rest =>
          rw [step] at step'
          cases step'
          rw [ih rest]

/-- An iterator that is given as many steps as it has values yields all of them. -/
theorem valuesOf_eq (yields : Yields next? state values) {limit : Nat}
    (enough : values.length ≤ limit) : valuesOf next? limit state = values := by
  induction yields generalizing limit with
  | ends done => cases limit <;> simp [valuesOf, done]
  | goesOn step _ ih =>
      cases limit with
      | zero => cases enough
      | succ limit =>
          rw [valuesOf, step]
          exact congrArg _ (ih (Nat.le_of_succ_le_succ enough))

end Yields

namespace NodeStore

variable {store before after origin : NodeStore} {id top child parent : NodeId}
  {ids tops rest values : List NodeId}

/-! ## Preorder -/

/-- What is listed for a node are its children in order, each with what is listed for it behind
it. -/
def ListsInPreorder (store : NodeStore) (listing : NodeId → List NodeId) : Prop :=
  ∀ id, listing id = (store.children id).flatMap fun child => child :: listing child

/-- There is only one listing in preorder. -/
theorem WellFormed.preorder_unique (wellFormed : store.WellFormed)
    {listing other : NodeId → List NodeId} (preorder : store.ListsInPreorder listing)
    (preorder' : store.ListsInPreorder other) : listing = other := by
  funext id
  induction id using wellFormed.downInduction with
  | node id same =>
      rw [preorder, preorder']
      exact List.flatMap_congr fun child member => by rw [same child member]

/-- The nodes below a node in document order, down to `depth` levels. -/
def belowTo (store : NodeStore) : (depth : Nat) → NodeId → List NodeId
  | 0, _ => []
  | depth + 1, id => (store.children id).flatMap fun child => child :: store.belowTo depth child

private theorem WellFormed.belowTo_succ (wellFormed : store.WellFormed) {depth : Nat}
    (deep : store.size ≤ (store.ancestors id).length + depth + 1) :
    store.belowTo (depth + 1) id = store.belowTo depth id := by
  refine wellFormed.levelInduction (motive := fun depth id =>
    store.belowTo (depth + 1) id = store.belowTo depth id) ?_ ?_ deep
  · intro id leaf
    rw [belowTo, belowTo, leaf]
    rfl
  · intro depth id below
    rw [belowTo, belowTo]
    exact List.flatMap_congr fun child member => by rw [below child member]

/-- All levels below a node are a listing in preorder. -/
theorem WellFormed.preorder_belowTo (wellFormed : store.WellFormed) :
    store.ListsInPreorder (store.belowTo store.size) := by
  intro id
  have bound : store.size ≤ (store.ancestors id).length + store.size + 1 :=
    Nat.le_succ_of_le (Nat.le_add_left _ _)
  rw [← wellFormed.belowTo_succ bound, belowTo]

/-! ## What is listed -/

section Listing

variable {listing : NodeId → List NodeId}

/-- Listed are the nodes that are properly below a node. -/
theorem ListsInPreorder.mem_iff (preorder : store.ListsInPreorder listing)
    (wellFormed : store.WellFormed) : id ∈ listing top ↔ TransGen store.Up id top := by
  have step : ∀ {id top}, id ∈ listing top ↔
      ∃ child ∈ store.children top, id = child ∨ id ∈ listing child := by
    intro id top
    rw [preorder, List.mem_flatMap]
    simp only [List.mem_cons]
  constructor
  · intro member
    induction top using wellFormed.downInduction with
    | node top below =>
        rcases step.1 member with ⟨child, isChild, rfl | member⟩
        · exact .single ((wellFormed.linked top _).1 isChild)
        · exact (below child isChild member).tail ((wellFormed.linked top child).1 isChild)
  · intro way
    induction way with
    | single up => exact step.2 ⟨id, (wellFormed.linked _ id).2 up, .inl rfl⟩
    | tail _ up member => exact step.2 ⟨_, (wellFormed.linked _ _).2 up, .inr member⟩

/-- No node is below two siblings. -/
theorem WellFormed.eq_of_below_siblings (wellFormed : store.WellFormed) {sibling : NodeId}
    (linked : store.parent? child = some parent) (linked' : store.parent? sibling = some parent)
    (below : store.Below id child) (below' : store.Below id sibling) : child = sibling := by
  by_contra other
  have oneParent : Relator.RightUnique store.Up := fun _ _ _ up up' =>
    Option.some.inj (up.symm.trans up')
  rcases below.total_of_right_unique oneParent below' with above | above
  · exact wellFormed.not_below_sibling linked linked' other above
  · exact wellFormed.not_below_sibling linked' linked (Ne.symm other) above

/-- No node is listed twice. -/
theorem ListsInPreorder.nodup (preorder : store.ListsInPreorder listing)
    (wellFormed : store.WellFormed) (top : NodeId) : (listing top).Nodup := by
  have isBelow : ∀ {child id}, id ∈ child :: listing child → store.Below id child := by
    intro child id member
    rcases List.mem_cons.1 member with rfl | member
    · exact .refl
    · exact ((preorder.mem_iff wellFormed).1 member).to_reflTransGen
  induction top using wellFormed.downInduction with
  | node top below =>
      rw [preorder, List.nodup_flatMap]
      constructor
      · intro child member
        refine List.nodup_cons.2 ⟨fun circle => ?_, below child member⟩
        exact wellFormed.acyclic child ((preorder.mem_iff wellFormed).1 circle)
      · refine (wellFormed.nodup top).imp_of_mem fun {child sibling} member member' other => ?_
        refine List.disjoint_left.2 fun id among among' => other ?_
        exact wellFormed.eq_of_below_siblings ((wellFormed.linked top child).1 member)
          ((wellFormed.linked top sibling).1 member') (isBelow among) (isBelow among')

/-- No more nodes are listed than the store has. -/
theorem ListsInPreorder.length_le (preorder : store.ListsInPreorder listing)
    (wellFormed : store.WellFormed) (top : NodeId) : (listing top).length ≤ store.size := by
  have inRange : listing top ⊆ List.range store.size := by
    intro id member
    rcases TransGen.head'_iff.1 ((preorder.mem_iff wellFormed).1 member) with ⟨_, up, -⟩
    exact List.mem_range.2 (lt_size_of_parent? up)
  have fits := (List.subperm_of_subset (preorder.nodup wellFormed top) inRange).length_le
  rwa [List.length_range] at fits

/-! ## The walk down -/

/-- With nodes on the stack in front of others, these nodes come first, each with what is below
it. -/
private theorem yields_append
    (each : ∀ id ∈ ids, ∀ {rest values}, Yields store.nextBelow? rest values →
      Yields store.nextBelow? (id :: rest) (id :: listing id ++ values))
    (others : Yields store.nextBelow? rest values) :
    Yields store.nextBelow? (ids ++ rest) ((ids.flatMap fun id => id :: listing id) ++ values) := by
  induction ids with
  | nil => exact others
  | cons id ids ih =>
      rw [List.forall_mem_cons] at each
      rw [List.flatMap_cons, List.append_assoc]
      exact each.1 (ih each.2)

/-- A walk down from the children of a node lists what is below it, and ends. -/
theorem ListsInPreorder.yields (preorder : store.ListsInPreorder listing)
    (wellFormed : store.WellFormed) (top : NodeId) :
    Yields store.nextBelow? (store.children top) (listing top) := by
  have each : ∀ id, ∀ {rest values}, Yields store.nextBelow? rest values →
      Yields store.nextBelow? (id :: rest) (id :: listing id ++ values) := by
    intro id
    induction id using wellFormed.downInduction with
    | node id below =>
        intro rest values others
        refine .goesOn rfl ?_
        rw [preorder]
        exact yields_append below others
  have done : Yields store.nextBelow? [] [] := .ends rfl
  have walk : Yields store.nextBelow? (store.children top ++ [])
      (((store.children top).flatMap fun id => id :: listing id) ++ []) :=
    yields_append (fun id _ => each id) done
  rwa [List.append_nil, List.append_nil, ← preorder] at walk

end Listing

namespace WellFormed

theorem descendants_eq_belowTo (wellFormed : store.WellFormed) (id : NodeId) :
    store.descendants id = store.belowTo store.size id :=
  (wellFormed.preorder_belowTo.yields wellFormed id).valuesOf_eq
    (wellFormed.preorder_belowTo.length_le wellFormed id)

/-- The walk down visits what is below nodes in preorder. -/
theorem preorder_descendants (wellFormed : store.WellFormed) :
    store.ListsInPreorder store.descendants := by
  have same : store.descendants = store.belowTo store.size :=
    funext wellFormed.descendants_eq_belowTo
  rw [same]
  exact wellFormed.preorder_belowTo

theorem mem_descendants_iff (wellFormed : store.WellFormed) :
    id ∈ store.descendants top ↔ TransGen store.Up id top :=
  wellFormed.preorder_descendants.mem_iff wellFormed

/-! ## The walk up -/

/-- A walk up from the parent of a node lists its ancestors, and ends. -/
theorem yields_ancestors (wellFormed : store.WellFormed) (id : NodeId) :
    Yields store.nextAbove? (store.parent? id) (store.ancestors id) := by
  induction id using wellFormed.upInduction with
  | detached id up =>
      rw [ancestors_of_detached up, up]
      exact .ends rfl
  | linked id parent up above =>
      rw [wellFormed.ancestors_eq up, up]
      exact .goesOn rfl above

/-- Each ancestor is the parent of the one before it. -/
theorem isChain_ancestors (wellFormed : store.WellFormed) (id : NodeId) :
    (id :: store.ancestors id).IsChain store.Up := by
  induction id using wellFormed.upInduction with
  | detached id up =>
      rw [ancestors_of_detached up]
      exact .singleton id
  | linked id parent up above =>
      rw [wellFormed.ancestors_eq up]
      exact .cons_cons up above

end WellFormed

/-! ## Both walks -/

/-- The two iterators end and describe one order of the nodes, in which the texts below a node are
put together. -/
structure WalksAgree (store : NodeStore) : Prop where
  preorder : ∀ listing, store.ListsInPreorder listing ↔ listing = store.descendants
  below : ∀ top values,
    Yields store.nextBelow? (store.children top) values ↔ values = store.descendants top
  once : ∀ top, (store.descendants top).Nodup
  proper : ∀ top id, id ∈ store.descendants top ↔ TransGen store.Up id top
  above : ∀ id values,
    Yields store.nextAbove? (store.parent? id) values ↔ values = store.ancestors id
  nearestFirst : ∀ id, (id :: store.ancestors id).IsChain store.Up
  converse : ∀ top id, id ∈ store.descendants top ↔ top ∈ store.ancestors id
  texts : ∀ top, (store.label top).text? = none → store.textContent top =
    String.join ((store.descendants top).filterMap fun inner => (store.label inner).text?)
  ownText : ∀ top content, (store.label top).text? = some content → store.textContent top = content

/-- In a well-formed store the walk down ends and is the preorder of what is below a node, each node
once; the walk up ends and is its converse, nearest first; and the text of a node that is no text
itself is made of the texts on the walk down. -/
theorem walks_agree (wellFormed : store.WellFormed) : store.WalksAgree := by
  have preorder := wellFormed.preorder_descendants
  constructor
  case preorder =>
    refine fun listing => ⟨fun other => wellFormed.preorder_unique other preorder, ?_⟩
    rintro rfl
    exact preorder
  case below =>
    refine fun top values => ⟨fun yields => yields.unique (preorder.yields wellFormed top), ?_⟩
    rintro rfl
    exact preorder.yields wellFormed top
  case once => exact preorder.nodup wellFormed
  case proper => exact fun top id => wellFormed.mem_descendants_iff
  case above =>
    refine fun id values => ⟨fun yields => yields.unique (wellFormed.yields_ancestors id), ?_⟩
    rintro rfl
    exact wellFormed.yields_ancestors id
  case nearestFirst => exact wellFormed.isChain_ancestors
  case converse =>
    exact fun top id => wellFormed.mem_descendants_iff.trans wellFormed.mem_ancestors_iff.symm
  case texts =>
    intro top noText
    rw [textContent, noText]
  case ownText =>
    intro top content isText
    rw [textContent, isText]

/-- Two runs and a comment between them. -/
def twoRuns : NodeStore :=
  .ofNode (.element (QName.ofTerm Term.paragraph) [] [
    .element (QName.ofTerm Term.run) [] [.text "a"],
    .comment "c",
    .element (QName.ofTerm Term.run) [] [.text "b"]])

theorem wellFormed_twoRuns : twoRuns.WellFormed :=
  (adds_graft (.ofNode _) wellFormed_empty).1.wellFormed

theorem walks_agree_twoRuns :
    twoRuns.WellFormed ∧ Yields twoRuns.nextBelow? (twoRuns.children 0) [1, 2, 3, 4, 5] ∧
      Yields twoRuns.nextAbove? (twoRuns.parent? 5) [4, 0] ∧ twoRuns.textContent 0 = "ab" := by
  have agree := walks_agree wellFormed_twoRuns
  refine ⟨wellFormed_twoRuns, (agree.below 0 _).2 (by decide), (agree.above 5 _).2 (by decide), ?_⟩
  rw [agree.texts 0 (by decide)]
  decide

/-- A text below a text. -/
def nestedTexts : NodeStore :=
  ((empty.alloc (.text "a")).1.alloc (.text "b")).1.append 0 1

theorem wellFormed_nestedTexts : nestedTexts.WellFormed := by
  have first := Adds.alloc wellFormed_empty (.text "a")
  have both : Adds empty ((empty.alloc (.text "a")).1.alloc (.text "b")).1 [0, 1] :=
    first.trans (Adds.alloc first.wellFormed (.text "b"))
  exact both.append.wellFormed

/-- The text of a node that is a text is its own content only: it is not made of the texts on the
walk down, with or without the node itself, if there are texts below it. -/
theorem textContent_nestedTexts :
    nestedTexts.WellFormed ∧ nestedTexts.textContent 0 = "a" ∧
      nestedTexts.textContent 0 ≠ String.join ((nestedTexts.descendants 0).filterMap fun id =>
        (nestedTexts.label id).text?) ∧
      nestedTexts.textContent 0 ≠ String.join ((0 :: nestedTexts.descendants 0).filterMap fun id =>
        (nestedTexts.label id).text?) :=
  ⟨wellFormed_nestedTexts, by decide, by decide, by decide⟩

end NodeStore

end TemplateFill
