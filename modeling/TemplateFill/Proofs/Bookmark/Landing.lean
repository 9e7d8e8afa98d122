import TemplateFill.Proofs.Bookmark.Group
import TemplateFill.Proofs.Markup.Place

/-!
# Parents after regrouping

A node keeps its parent when it is regrouped, unless a paragraph mark takes it in.  Which parents
and children a regrouped document has can so be told from the flat siblings, one at a time.
-/

namespace TemplateFill.Node

/-- The kind of the parent of a node that is regrouped together with the siblings behind it. -/
def landing (outer : Kind) (node : Node) (rest : List Node) : Kind :=
  if node.isBlockLevel = false ∧ firstGroupMarked rest = true then .paragraph else outer

theorem landing_marked {outer : Kind} {node : Node} {rest : List Node}
    (inline : node.isBlockLevel = false) (marked : firstGroupMarked rest = true) :
    landing outer node rest = .paragraph := if_pos ⟨inline, marked⟩

theorem landing_unmarked {outer : Kind} {node : Node} {rest : List Node}
    (alone : node.isBlockLevel = true ∨ firstGroupMarked rest = false) :
    landing outer node rest = outer := by
  apply if_neg
  rintro ⟨inline, marked⟩
  rcases alone with block | unmarked
  · rw [inline] at block
    cases block
  · rw [marked] at unmarked
    cases unmarked

/-- When more groups end with paragraph marks a node can only get into a paragraph. -/
theorem landing_ne {outer kind : Kind} {node : Node} {rest rest' : List Node}
    (keeps : firstGroupMarked rest = true → firstGroupMarked rest' = true)
    (other : kind ≠ .paragraph) (apart : landing outer node rest ≠ kind) :
    landing outer node rest' ≠ kind := by
  cases isBlock : node.isBlockLevel with
  | true =>
      rw [landing_unmarked (.inl isBlock)] at apart ⊢
      exact apart
  | false =>
      cases marked' : firstGroupMarked rest' with
      | true =>
          rw [landing_marked isBlock marked']
          exact other.symm
      | false =>
          have unmarked : firstGroupMarked rest = false := by
            apply Bool.eq_false_iff.2
            intro marked
            rw [keeps marked] at marked'
            cases marked'
          rw [landing_unmarked (.inr unmarked)] at apart
          rwa [landing_unmarked (.inr marked')]

/-- Without content controls the kind of a node decides whether it is block-level. -/
theorem isBlockLevel_eq_of_kind_eq {left right : Node} (equal : left.kind = right.kind)
    (noControl : left.kind ≠ .contentControl) : left.isBlockLevel = right.isBlockLevel := by
  rw [isBlockLevel, isBlockLevel, ← equal]
  cases kind : left.kind <;> first | rfl | exact absurd kind noControl

/-- What closes the first group behind some siblings can only change with what is behind them. -/
theorem firstGroupMarked_append_mono {left rest rest' : List Node}
    (keeps : firstGroupMarked rest = true → firstGroupMarked rest' = true)
    (marked : firstGroupMarked (left ++ rest) = true) :
    firstGroupMarked (left ++ rest') = true := by
  cases found : left.find? (·.isBlockLevel) with
  | none =>
      have inline : AllInline left := by
        intro node member
        simpa using List.find?_eq_none.1 found node member
      rw [firstGroupMarked_append_inline inline] at marked ⊢
      exact keeps marked
  | some last =>
      rw [firstGroupMarked, List.find?_append, found, Option.some_or] at marked ⊢
      exact marked

theorem firstGroupMarked_cons_congr {left right : Node} {rest : List Node}
    (block : left.isBlockLevel = right.isBlockLevel)
    (paragraph : left.isParagraph = right.isParagraph) :
    firstGroupMarked (left :: rest) = firstGroupMarked (right :: rest) := by
  cases isBlock : right.isBlockLevel with
  | true =>
      rw [firstGroupMarked_cons_block (block.trans isBlock), firstGroupMarked_cons_block isBlock,
        paragraph]
  | false =>
      rw [firstGroupMarked_cons_inline (block.trans isBlock), firstGroupMarked_cons_inline isBlock]

/-- Allowed parents and children that leave all freedom to paragraphs. -/
structure PermitsParagraphs (allowed : Kind → Kind → Prop) : Prop where
  below : ∀ outer, allowed outer .paragraph
  inside : ∀ inner, allowed .paragraph inner

/-- The place where a sibling ends up is allowed, and so is all below it. -/
def LandsAllowed (allowed : Kind → Kind → Prop) (outer : Kind) (node : Node)
    (rest : List Node) : Prop :=
  if node.isParagraph then EveryEdge allowed node
  else allowed (landing outer node rest) node.kind ∧ EveryEdge allowed node.regroup

section Edges

variable {allowed : Kind → Kind → Prop} {outer : Kind}

theorem edgesBelow_regroupAll_cons (permits : PermitsParagraphs allowed) {node : Node}
    {rest : List Node} :
    EdgesBelow allowed outer (regroupAll (node :: rest)) ↔
      LandsAllowed allowed outer node rest ∧ EdgesBelow allowed outer (regroupAll rest) := by
  cases paragraph : node.isParagraph with
  | true =>
      rcases exists_of_isParagraph paragraph with ⟨name, attrs, props, rfl, kind⟩
      rw [regroupAll_cons_paragraph kind, edgesBelow_cons, LandsAllowed, if_pos paragraph,
        kind_element, kind]
      simp only [permits.below, true_and]
  | false =>
      rw [LandsAllowed, if_neg (by simp [paragraph])]
      by_cases taken : node.isBlockLevel = false ∧ firstGroupMarked rest = true
      · rcases taken with ⟨inline, marked⟩
        obtain ⟨left, name, attrs, props, others, rfl, leftInline, kind⟩ :=
          exists_of_firstGroupMarked marked
        have longer : AllInline (node :: left) := List.forall_mem_cons.2 ⟨inline, leftInline⟩
        rw [landing_marked inline marked, ← List.cons_append, regroupAll_paragraph longer kind,
          regroupAll_paragraph leftInline kind]
        simp only [edgesBelow_cons, edgesBelow_append, everyEdge_element, kind_element, kind,
          List.map_cons, permits.below, permits.inside, true_and]
        exact ⟨fun ⟨⟨props, here, left⟩, rest⟩ => ⟨here, ⟨props, left⟩, rest⟩,
          fun ⟨here, ⟨props, left⟩, rest⟩ => ⟨⟨props, here, left⟩, rest⟩⟩
      · have alone : node.isBlockLevel = true ∨ firstGroupMarked rest = false := by
          cases block : node.isBlockLevel with
          | true => exact .inl rfl
          | false => exact .inr (Bool.eq_false_iff.2 fun marked => taken ⟨block, marked⟩)
        rw [landing_unmarked alone, regroupAll_cons_unmarked paragraph alone, edgesBelow_cons,
          kind_regroup]

theorem LandsAllowed.mono (permits : PermitsParagraphs allowed) {node : Node}
    {rest rest' : List Node}
    (keeps : firstGroupMarked rest = true → firstGroupMarked rest' = true)
    (lands : LandsAllowed allowed outer node rest) : LandsAllowed allowed outer node rest' := by
  rw [LandsAllowed] at lands ⊢
  split
  · rwa [if_pos (by assumption)] at lands
  · rw [if_neg (by assumption)] at lands
    refine ⟨?_, lands.2⟩
    cases block : node.isBlockLevel with
    | true =>
        rw [landing_unmarked (.inl block)] at lands ⊢
        exact lands.1
    | false =>
        cases marked' : firstGroupMarked rest' with
        | true =>
            rw [landing_marked block marked']
            exact permits.inside _
        | false =>
            have unmarked : firstGroupMarked rest = false := by
              apply Bool.eq_false_iff.2
              intro marked
              rw [keeps marked] at marked'
              cases marked'
            rw [landing_unmarked (.inr marked')]
            rw [landing_unmarked (.inr unmarked)] at lands
            exact lands.1

/-- Siblings on the left stay allowed when the ones behind them change. -/
theorem edgesBelow_regroupAll_mono (permits : PermitsParagraphs allowed)
    {left rest rest' : List Node}
    (keeps : firstGroupMarked rest = true → firstGroupMarked rest' = true)
    (edges' : EdgesBelow allowed outer (regroupAll rest'))
    (edges : EdgesBelow allowed outer (regroupAll (left ++ rest))) :
    EdgesBelow allowed outer (regroupAll (left ++ rest')) := by
  induction left with
  | nil => exact edges'
  | cons node others ih =>
      rw [List.cons_append, edgesBelow_regroupAll_cons permits] at edges ⊢
      exact ⟨edges.1.mono permits (firstGroupMarked_append_mono keeps), ih edges.2⟩

theorem edgesBelow_regroupAll_of_append (permits : PermitsParagraphs allowed)
    {left rest : List Node} (edges : EdgesBelow allowed outer (regroupAll (left ++ rest))) :
    EdgesBelow allowed outer (regroupAll rest) := by
  induction left with
  | nil => exact edges
  | cons node others ih =>
      rw [List.cons_append, edgesBelow_regroupAll_cons permits] at edges
      exact ih edges.2

theorem everyEdge_regroup_of_mem (permits : PermitsParagraphs allowed) {nodes : List Node}
    {node : Node} (edges : EdgesBelow allowed outer (regroupAll nodes)) (member : node ∈ nodes)
    (other : node.isParagraph = false) : EveryEdge allowed node.regroup := by
  obtain ⟨left, right, rfl⟩ := List.append_of_mem member
  have here := edgesBelow_regroupAll_of_append permits edges
  rw [edgesBelow_regroupAll_cons permits, LandsAllowed, if_neg (by simp [other])] at here
  exact here.1.2

/-- Siblings that are allowed anywhere can be put before others. -/
theorem edgesBelow_regroupAll_append (permits : PermitsParagraphs allowed)
    {left right : List Node}
    (each : ∀ node ∈ left, node.isParagraph = false ∧ (∀ outer, allowed outer node.kind) ∧
      EveryEdge allowed node.regroup)
    (edges : EdgesBelow allowed outer (regroupAll right)) :
    EdgesBelow allowed outer (regroupAll (left ++ right)) := by
  induction left with
  | nil => exact edges
  | cons node rest ih =>
      rcases List.forall_mem_cons.1 each with ⟨⟨other, anywhere, below⟩, later⟩
      rw [List.cons_append, edgesBelow_regroupAll_cons permits, LandsAllowed,
        if_neg (by simp [other])]
      exact ⟨⟨anywhere _, below⟩, ih later⟩

end Edges

/-! ## Along a position -/

/-- A step into a node that is neither a paragraph nor a content control nor paragraph
properties. -/
structure OpenStep (left : List Node) (child : Node) : Prop where
  no_paragraph : child.isParagraph = false
  no_props : child.isParagraphProps = false
  no_control : child.kind ≠ .contentControl

theorem OpenStep.of_label_eq {left : List Node} {child child' : Node}
    (step : OpenStep left child) (same : child'.label = child.label) : OpenStep left child' := by
  have kind := kind_eq_of_label_eq same
  constructor
  · rw [isParagraph, kind]
    exact step.no_paragraph
  · rw [isParagraphProps, kind]
    exact step.no_props
  · rw [kind]
    exact step.no_control

section Along

variable {allowed : Kind → Kind → Prop} {root target node : Node} {path : Path}

theorem Reaches.everyEdge_regroup (permits : PermitsParagraphs allowed)
    (reached : Reaches OpenStep root path target) (edges : EveryEdge allowed root.regroup) :
    EveryEdge allowed target.regroup := by
  induction reached with
  | here => exact edges
  | down passing _ ih =>
      rw [regroup_element, everyEdge_element] at edges
      exact ih (everyEdge_regroup_of_mem permits edges (by simp) passing.no_paragraph)

/-- A document stays allowed when what is put at a position is. -/
theorem Reaches.everyEdge_regroup_replaceAt (permits : PermitsParagraphs allowed)
    (reached : Reaches OpenStep root path target) (keeps : node.label = target.label)
    (inner : EveryEdge allowed target.regroup → EveryEdge allowed node.regroup)
    (edges : EveryEdge allowed root.regroup) :
    EveryEdge allowed (root.replaceAt path node).regroup := by
  induction reached with
  | here => exact inner edges
  | @down name attrs left child right rest target passing reached ih =>
      have label := reached.label_replaceAt keeps
      have kind := kind_eq_of_label_eq label
      have block : (child.replaceAt rest node).isBlockLevel = child.isBlockLevel :=
        (isBlockLevel_eq_of_kind_eq kind.symm passing.no_control).symm
      have noParagraph : (child.replaceAt rest node).isParagraph = false := by
        rw [isParagraph, kind]
        exact passing.no_paragraph
      rw [regroup_element, everyEdge_element] at edges
      rw [replaceAt_down, regroup_element, everyEdge_element]
      refine edgesBelow_regroupAll_mono permits ?_ ?_ edges
      · intro marked
        rwa [firstGroupMarked_cons_congr block (noParagraph.trans passing.no_paragraph.symm)]
      · have here := edgesBelow_regroupAll_of_append permits edges
        rw [edgesBelow_regroupAll_cons permits, LandsAllowed,
          if_neg (by simp [passing.no_paragraph])] at here
        rw [edgesBelow_regroupAll_cons permits, LandsAllowed, if_neg (by simp [noParagraph]), kind,
          landing, block]
        exact ⟨⟨here.1.1, ih keeps inner here.1.2⟩, here.2⟩

end Along

end TemplateFill.Node
