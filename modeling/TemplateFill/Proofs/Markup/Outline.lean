import TemplateFill.Proofs.Markup.Tree

/-!
# Outlines

The outline of a document, its labels in preorder with their depths, determines the document.
-/

namespace TemplateFill.Node

/-- A list of labels with depths does not begin at `depth` or further down. -/
private def LeavesDepth (depth : Nat) (entries : List (Nat × Label)) : Prop :=
  ∀ entry ∈ entries.head?, entry.1 < depth

private theorem leavesDepth_outlineOfAll_append {depth : Nat} {entries : List (Nat × Label)}
    (leaves : LeavesDepth depth entries) (nodes : List Node) :
    LeavesDepth (depth + 1) (outlineOfAll depth nodes ++ entries) := by
  cases nodes with
  | nil =>
      intro entry member
      exact Nat.lt_succ_of_lt (leaves entry member)
  | cons node rest =>
      intro entry member
      have first : entry.1 = depth := by
        cases node <;> simp [outlineOfAll, outlineFrom] at member <;> simp [← member]
      rw [first]
      exact Nat.lt_succ_self depth

private theorem outlineOfAll_append_inj {nodes others : List Node} {depth : Nat}
    {rest rest' : List (Nat × Label)}
    (each : ∀ node ∈ nodes, ∀ other depth rest rest', LeavesDepth (depth + 1) rest →
      LeavesDepth (depth + 1) rest' →
      outlineFrom depth node ++ rest = outlineFrom depth other ++ rest' →
        node = other ∧ rest = rest')
    (leaves : LeavesDepth depth rest) (leaves' : LeavesDepth depth rest')
    (equal : outlineOfAll depth nodes ++ rest = outlineOfAll depth others ++ rest') :
    nodes = others ∧ rest = rest' := by
  -- Siblings cannot go on where the other list has left their depth.
  have stops : ∀ {node : Node} {more entries end_ : List (Nat × Label)},
      LeavesDepth depth end_ → end_ ≠ outlineFrom depth node ++ more ++ entries := by
    intro node more entries end_ leavesEnd same
    have low := leavesEnd (depth, node.label) (by cases node <;> simp [same, outlineFrom, label])
    exact Nat.lt_irrefl depth low
  induction nodes generalizing others with
  | nil =>
      cases others with
      | nil => exact ⟨rfl, equal⟩
      | cons other more => exact absurd equal (stops leaves)
  | cons node more ih =>
      cases others with
      | nil => exact absurd equal.symm (stops leaves')
      | cons other more' =>
          rw [List.forall_mem_cons] at each
          rw [outlineOfAll, outlineOfAll, List.append_assoc, List.append_assoc] at equal
          obtain ⟨rfl, tails⟩ := each.1 other depth _ _
            (leavesDepth_outlineOfAll_append leaves more)
            (leavesDepth_outlineOfAll_append leaves' more') equal
          obtain ⟨rfl, rests⟩ := ih each.2 tails
          exact ⟨rfl, rests⟩

private theorem outlineFrom_append_inj (node : Node) : ∀ (other : Node) (depth : Nat)
    (rest rest' : List (Nat × Label)), LeavesDepth (depth + 1) rest →
    LeavesDepth (depth + 1) rest' →
    outlineFrom depth node ++ rest = outlineFrom depth other ++ rest' →
      node = other ∧ rest = rest' := by
  induction node using treeInduction with
  | element name attrs children ih =>
      intro other depth rest rest' leaves leaves' equal
      cases other with
      | element name' attrs' children' =>
          rw [outlineFrom, outlineFrom, List.cons_append, List.cons_append] at equal
          obtain ⟨tops, below⟩ := List.cons.inj equal
          obtain ⟨rfl, rests⟩ := outlineOfAll_append_inj ih leaves leaves' below
          simp only [Prod.mk.injEq, Label.element.injEq, true_and] at tops
          rcases tops with ⟨rfl, rfl⟩
          exact ⟨rfl, rests⟩
      | text | comment => simp [outlineFrom] at equal
  | text content =>
      intro other depth rest rest' _ _ equal
      cases other <;> simp_all [outlineFrom]
  | comment content =>
      intro other depth rest rest' _ _ equal
      cases other <;> simp_all [outlineFrom]

/-- Documents with one outline are one document. -/
theorem outline_inj {left right : Node} : left.outline = right.outline ↔ left = right := by
  constructor
  · intro equal
    have ends : LeavesDepth (0 + 1) [] := fun entry member => by cases member
    refine (outlineFrom_append_inj left right 0 [] [] ends ends ?_).1
    rw [List.append_nil, List.append_nil]
    exact equal
  · intro equal
    rw [equal]

end TemplateFill.Node
