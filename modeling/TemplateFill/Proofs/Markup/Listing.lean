import TemplateFill.Proofs.Markup.Place

/-!
# Positions in document order

The positions of a document are listed in their own order, each one that leads to a node below the
root and no other.  So the first position of a sort comes before all others of this sort.
-/

namespace TemplateFill.Node

private theorem placedFrom_sorted {nodes : List Node}
    (each : ∀ node ∈ nodes, (node.placed.Pairwise fun left right => left.1 < right.1) ∧
      ∀ place ∈ node.placed, place.1 ≠ [])
    (index : Nat) :
    ((placedFrom index nodes).Pairwise fun left right => left.1 < right.1) ∧
      ∀ place ∈ placedFrom index nodes, ∃ head tail, place.1 = head :: tail ∧ index ≤ head := by
  induction nodes generalizing index with
  | nil => simp [placedFrom]
  | cons node rest ih =>
      rcases List.forall_mem_cons.1 each with ⟨⟨within, nonempty⟩, others⟩
      rcases ih others (index + 1) with ⟨sorted, behind⟩
      have earlier : ∀ (path : Path), ∀ place ∈ placedFrom (index + 1) rest,
          index :: path < place.1 := by
        intro path place later
        rcases behind place later with ⟨head, tail, same, larger⟩
        rw [same]
        exact List.cons_lt_cons_iff.2 (.inl (by omega))
      rw [placedFrom, List.cons_append]
      constructor
      · refine List.pairwise_cons.2 ⟨?_, List.pairwise_append.2 ⟨?_, sorted, ?_⟩⟩
        · intro place member
          rcases List.mem_append.1 member with below | later
          · rcases List.mem_map.1 below with ⟨inner, among, rfl⟩
            rcases List.exists_cons_of_ne_nil (nonempty inner among) with ⟨head, tail, same⟩
            rw [same]
            exact List.cons_lt_cons_iff.2 (.inr ⟨rfl, List.nil_lt_cons head tail⟩)
          · exact earlier [] place later
        · refine List.pairwise_map.2 (within.imp fun before => ?_)
          exact List.cons_lt_cons_iff.2 (.inr ⟨rfl, before⟩)
        · intro place below place' later
          rcases List.mem_map.1 below with ⟨inner, _, rfl⟩
          exact earlier inner.1 place' later
      · intro place member
        rcases List.mem_cons.1 member with rfl | member
        · exact ⟨index, [], rfl, Nat.le_refl index⟩
        · rcases List.mem_append.1 member with below | later
          · rcases List.mem_map.1 below with ⟨inner, _, rfl⟩
            exact ⟨index, inner.1, rfl, Nat.le_refl index⟩
          · rcases behind place later with ⟨head, tail, same, larger⟩
            exact ⟨head, tail, same, by omega⟩

/-- Positions are listed in their own order: by the first index at which they differ, and a node
before what is below it. -/
theorem placed_sorted (node : Node) :
    node.placed.Pairwise fun left right => left.1 < right.1 := by
  have both : (node.placed.Pairwise fun left right => left.1 < right.1) ∧
      ∀ place ∈ node.placed, place.1 ≠ [] := by
    induction node using treeInduction with
    | element name attrs children ih =>
        rcases placedFrom_sorted ih 0 with ⟨sorted, heads⟩
        refine ⟨sorted, fun place member => ?_⟩
        rcases heads place member with ⟨head, tail, same, _⟩
        rw [same]
        exact List.cons_ne_nil head tail
    | text | comment => simp [placed]
  exact both.1

/-- Every position that leads somewhere is the way there. -/
theorem reaches_of_at? {root target : Node} {path : Path} (found : root.at? path = some target) :
    Reaches (fun _ _ => True) root path target := by
  induction path generalizing root with
  | nil =>
      cases found
      exact .here
  | cons index rest ih =>
      rw [at?, Option.bind_eq_some_iff] at found
      rcases found with ⟨child, isChild, inner⟩
      cases root with
      | element name attrs children =>
          rw [children_element] at isChild
          rcases List.getElem?_eq_some_iff.1 isChild with ⟨inside, same⟩
          have split : children = children.take index ++ child :: children.drop (index + 1) := by
            rw [← same, List.getElem_cons_drop, List.take_append_drop]
          have length : (children.take index).length = index :=
            List.length_take_of_le (Nat.le_of_lt inside)
          have step : Reaches (fun _ _ => True)
              (.element name attrs (children.take index ++ child :: children.drop (index + 1)))
              ((children.take index).length :: rest) target := .down trivial (ih inner)
          rw [← split, length] at step
          exact step
      | text | comment => cases isChild

private theorem mem_placedFrom_iff {nodes : List Node} {target : Node}
    (each : ∀ node ∈ nodes, ∀ path, (path, target) ∈ node.placed ↔
      path ≠ [] ∧ node.at? path = some target) (index : Nat) (path : Path) :
    (path, target) ∈ placedFrom index nodes ↔
      ∃ offset rest, path = (index + offset) :: rest ∧
        nodes[offset]?.bind (at? · rest) = some target := by
  induction nodes generalizing index with
  | nil => simp [placedFrom]
  | cons node others ih =>
      rcases List.forall_mem_cons.1 each with ⟨first, later⟩
      rw [placedFrom, List.mem_append, ih later]
      constructor
      · rintro (here | ⟨offset, rest, rfl, found⟩)
        · rcases List.mem_cons.1 here with same | below
          · cases same
            exact ⟨0, [], rfl, rfl⟩
          · rcases List.mem_map.1 below with ⟨⟨inner, _⟩, among, same⟩
            cases same
            exact ⟨0, inner, rfl, ((first inner).1 among).2⟩
        · exact ⟨offset + 1, rest, by rw [Nat.add_assoc, Nat.add_comm 1], found⟩
      · rintro ⟨offset, rest, rfl, found⟩
        cases offset with
        | zero =>
            left
            cases rest with
            | nil =>
                cases found
                exact List.mem_cons_self
            | cons head tail =>
                have below := (first (head :: tail)).2 ⟨List.cons_ne_nil head tail, found⟩
                exact List.mem_cons_of_mem _ (List.mem_map.2 ⟨_, below, rfl⟩)
        | succ offset =>
            right
            exact ⟨offset, rest, by rw [Nat.add_assoc, Nat.add_comm 1], found⟩

/-- The positions that are listed are those of the nodes below the root. -/
theorem mem_placed_iff {root target : Node} {path : Path} :
    (path, target) ∈ root.placed ↔ path ≠ [] ∧ root.at? path = some target := by
  induction root using treeInduction generalizing path with
  | element name attrs children ih =>
      rw [placed, mem_placedFrom_iff fun node member path => ih node member]
      constructor
      · rintro ⟨offset, rest, rfl, found⟩
        rw [Nat.zero_add]
        exact ⟨List.cons_ne_nil offset rest, found⟩
      · rintro ⟨some, found⟩
        cases path with
        | nil => exact absurd rfl some
        | cons offset rest => exact ⟨offset, rest, by rw [Nat.zero_add], found⟩
  | text | comment =>
      rw [placed]
      constructor
      · exact nofun
      · rintro ⟨some, found⟩
        cases path with
        | nil => exact absurd rfl some
        | cons offset rest => cases found
      -- The clause of placed for other nodes asks that the node is no element.
      · exact nofun

/-- The position found first comes before all others that are accepted. -/
theorem find?_placed_eq_some {root : Node} {accept : Path × Node → Bool} {place : Path × Node}
    (found : root.placed.find? accept = some place) :
    place ∈ root.placed ∧ accept place = true ∧
      ∀ other ∈ root.placed, other.1 < place.1 → accept other = false := by
  refine ⟨List.mem_of_find?_eq_some found, List.find?_some found, ?_⟩
  rcases List.find?_eq_some_iff_append.1 found with ⟨_, front, rest, split, refused⟩
  intro other member before
  have sorted := placed_sorted root
  rw [split] at member sorted
  rcases List.mem_append.1 member with earlier | late
  · simpa using refused other earlier
  · rcases List.mem_cons.1 late with rfl | behind
    · exact absurd before (List.lt_irrefl _)
    · have after := (List.pairwise_cons.1 (List.pairwise_append.1 sorted).2.1).1 other behind
      exact absurd (List.lt_trans before after) (List.lt_irrefl _)

end TemplateFill.Node
