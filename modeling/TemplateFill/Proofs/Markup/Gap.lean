import TemplateFill.Proofs.Markup.Place

/-!
# Gaps among siblings

A gap is a list of siblings with a gap somewhere among them or below them.  What is known of
the nodes before the gap and around it does not depend on what is in the gap.  Two segments that
are apart from each other stand in the two gaps of one fork: below a common node one gap comes
before the other.
-/

namespace TemplateFill

/-- Siblings with a gap among them or, at some depth, below one of them. -/
inductive Gap where
  | here (left right : List Node)
  | under (left : List Node) (name : QName) (attrs : List Attr) (inner : Gap)
      (right : List Node)

namespace Gap

/-- The siblings with a segment in the gap. -/
def fill : Gap → List Node → List Node
  | here left right, segment => left ++ (segment ++ right)
  | under left name attrs inner right, segment =>
      left ++ .element name attrs (inner.fill segment) :: right

/-- The gap with more siblings on both sides. -/
def around (before after : List Node) : Gap → Gap
  | here left right => here (before ++ left) (right ++ after)
  | under left name attrs inner right => under (before ++ left) name attrs inner (right ++ after)

/-- A gap in the gap of another one. -/
def into : Gap → Gap → Gap
  | here left right, inner => inner.around left right
  | under left name attrs outer right, inner => under left name attrs (outer.into inner) right

/-- The position of the parent of the gap. -/
def path : Gap → Path
  | here _ _ => []
  | under left _ _ inner _ => left.length :: inner.path

/-- The siblings before the gap. -/
def left : Gap → List Node
  | here left _ => left
  | under _ _ _ inner _ => inner.left

/-- The siblings behind the gap. -/
def right : Gap → List Node
  | here _ right => right
  | under _ _ _ inner _ => inner.right

/-- The name and the attributes of the parent of the gap in a document whose root has those of
`top`. -/
def parent (top : QName × List Attr) : Gap → QName × List Attr
  | here _ _ => top
  | under _ name attrs inner _ => inner.parent (name, attrs)

/-- All labels before the gap, in document order, have a property. -/
def Preceding (property : Label → Prop) : Gap → Prop
  | here left _ => ∀ node ∈ left, Node.EveryLabel property node
  | under left name attrs inner _ =>
      (∀ node ∈ left, Node.EveryLabel property node) ∧ property (.element name attrs) ∧
        inner.Preceding property

/-- All labels around the gap have a property. -/
def Above (property : Label → Prop) : Gap → Prop
  | here _ _ => True
  | under _ name attrs inner _ => property (.element name attrs) ∧ inner.Above property

section Composition

variable (gap outer inner : Gap) (before after segment : List Node) (top : QName × List Attr)
  (property : Label → Prop)

@[simp] theorem fill_around :
    (gap.around before after).fill segment = before ++ (gap.fill segment ++ after) := by
  cases gap <;> simp [around, fill]

@[simp] theorem fill_into : (outer.into inner).fill segment = outer.fill (inner.fill segment) := by
  induction outer with
  | here left right => rw [into, fill_around, fill]
  | under left name attrs outer right ih => rw [into, fill, fill, ih]

@[simp] theorem above_around : (gap.around before after).Above property ↔ gap.Above property := by
  cases gap <;> rfl

@[simp] theorem above_into :
    (outer.into inner).Above property ↔ outer.Above property ∧ inner.Above property := by
  induction outer with
  | here left right => simp [into, Above]
  | under left name attrs outer right ih => simp [into, Above, ih, and_assoc]

@[simp] theorem preceding_around :
    (gap.around before after).Preceding property ↔
      (∀ node ∈ before, Node.EveryLabel property node) ∧ gap.Preceding property := by
  cases gap <;> simp only [around, Preceding, List.forall_mem_append, and_assoc]

@[simp] theorem preceding_into :
    (outer.into inner).Preceding property ↔
      outer.Preceding property ∧ inner.Preceding property := by
  induction outer with
  | here left right => simp [into, Preceding]
  | under left name attrs outer right ih => simp [into, Preceding, ih, and_assoc]

@[simp] theorem parent_around : (gap.around before after).parent top = gap.parent top := by
  cases gap <;> rfl

@[simp] theorem parent_into : (outer.into inner).parent top = inner.parent (outer.parent top) := by
  induction outer generalizing top with
  | here left right => simp [into, parent]
  | under left name attrs outer right ih => simp [into, parent, ih]

@[simp] theorem right_into_here (before after : List Node) :
    (outer.into (here before after)).right = after ++ outer.right := by
  induction outer with
  | here left right => rfl
  | under left name attrs outer right ih => rw [into, Gap.right, ih, Gap.right]

@[simp] theorem right_into_under (before : List Node) (name : QName) (attrs : List Attr)
    (after : List Node) :
    (outer.into (under before name attrs inner after)).right = inner.right := by
  induction outer with
  | here left right => rfl
  | under left name attrs outer right ih => rw [into, Gap.right, ih]

/-- What is added before a gap does not change what is behind it. -/
theorem right_into_around_before :
    (outer.into (gap.around before [])).right = (outer.into gap).right := by
  cases gap <;> simp [around]

end Composition

/-- What holds of siblings holds of the segment in the gap, and it goes on to hold with any other
segment of which it holds, if the nodes around the gap hand it on from their children. -/
theorem forall_fill {property : Node → Prop} {around : Label → Prop} {gap : Gap}
    (above : gap.Above around)
    (hands : ∀ name attrs children, around (.element name attrs) →
      property (.element name attrs children) →
        (∀ child ∈ children, property child) ∧
          ∀ others, (∀ child ∈ others, property child) → property (.element name attrs others))
    {segment : List Node} (every : ∀ node ∈ gap.fill segment, property node) :
    (∀ node ∈ segment, property node) ∧
      ∀ other, (∀ node ∈ other, property node) → ∀ node ∈ gap.fill other, property node := by
  induction gap with
  | here left right =>
      simp only [fill, List.forall_mem_append] at every ⊢
      exact ⟨every.2.1, fun other fresh => ⟨every.1, fresh, every.2.2⟩⟩
  | under left name attrs inner right ih =>
      simp only [fill, List.forall_mem_append, List.forall_mem_cons] at every ⊢
      rcases every with ⟨leftEvery, entered, rightEvery⟩
      rcases hands name attrs _ above.1 entered with ⟨below, back⟩
      rcases ih above.2 below with ⟨inside, refill⟩
      exact ⟨inside, fun other fresh => ⟨leftEvery, back _ (refill other fresh), rightEvery⟩⟩

theorem above_true (gap : Gap) : gap.Above fun _ => True := by
  induction gap with
  | here left right => trivial
  | under left name attrs inner right ih => exact ⟨trivial, ih⟩

section EveryLabel

variable {property : Label → Prop} {gap : Gap} {segment other : List Node}

private theorem handsEveryLabel (name : QName) (attrs : List Attr) (children : List Node)
    (whole : Node.EveryLabel property (.element name attrs children)) :
    (∀ child ∈ children, Node.EveryLabel property child) ∧
      ∀ others, (∀ child ∈ others, Node.EveryLabel property child) →
        Node.EveryLabel property (.element name attrs others) := by
  rcases Node.everyLabel_element.1 whole with ⟨top, below⟩
  exact ⟨below, fun others each => Node.everyLabel_element.2 ⟨top, each⟩⟩

theorem everyLabel_of_fill (every : ∀ node ∈ gap.fill segment, Node.EveryLabel property node) :
    ∀ node ∈ segment, Node.EveryLabel property node :=
  (forall_fill gap.above_true (fun name attrs children _ => handsEveryLabel name attrs children)
    every).1

theorem everyLabel_fill (every : ∀ node ∈ gap.fill segment, Node.EveryLabel property node)
    (fresh : ∀ node ∈ other, Node.EveryLabel property node) :
    ∀ node ∈ gap.fill other, Node.EveryLabel property node :=
  (forall_fill gap.above_true (fun name attrs children _ => handsEveryLabel name attrs children)
    every).2 other fresh

end EveryLabel

theorem Preceding.left {property : Label → Prop} {gap : Gap} (before : gap.Preceding property) :
    ∀ node ∈ gap.left, Node.EveryLabel property node := by
  induction gap with
  | here left right => exact before
  | under left name attrs inner right ih => exact ih before.2.2

/-! ## Gaps and positions -/

section Positions

variable {passes : List Node → Node → Prop} {target : Node} {path : Path}

/-- The parent of the gap with a segment in it. -/
def holding (gap : Gap) (top : QName × List Attr) (segment : List Node) : Node :=
  .element (gap.parent top).1 (gap.parent top).2 (gap.left ++ (segment ++ gap.right))

/-- A way to a node with a segment among its children goes through a gap. -/
theorem exists_of_reaches {root : Node} {name : QName} {attrs : List Attr}
    {left segment right : List Node}
    (reached : root.Reaches passes path (.element name attrs (left ++ (segment ++ right)))) :
    ∃ top gap, root = .element top.1 top.2 (fill gap segment) ∧ gap.path = path ∧
      gap.left = left ∧ gap.right = right ∧ gap.parent top = (name, attrs) := by
  generalize goal : Node.element name attrs (left ++ (segment ++ right)) = target at reached
  induction reached with
  | here => exact ⟨(name, attrs), here left right, goal.symm, rfl, rfl, rfl, rfl⟩
  | @down outer outerAttrs before child after rest _ _ _ ih =>
      obtain ⟨top, gap, rfl, rfl, sameLeft, sameRight, sameParent⟩ := ih goal
      exact ⟨(outer, outerAttrs), under before top.1 top.2 gap after, rfl, rfl, sameLeft,
        sameRight, sameParent⟩

/-- What a way passes by is what stands before the gap, and what it enters is around it. -/
theorem preceding_of_reaches {property around : Label → Prop} {name : QName} {attrs : List Attr}
    {gap : Gap} {segment : List Node}
    (reached : (Node.element name attrs (gap.fill segment)).Reaches passes gap.path target)
    (passing : ∀ left child, passes left child →
      ((∀ node ∈ left, Node.EveryLabel property node) ∧ property child.label) ∧
        around child.label)
    (last : ∀ node ∈ gap.left, Node.EveryLabel property node) :
    gap.Preceding property ∧ gap.Above around := by
  induction gap generalizing name attrs with
  | here left right => exact ⟨last, trivial⟩
  | under left inName inAttrs inner right ih =>
      generalize whole : Node.element name attrs ((under left inName inAttrs inner right).fill
        segment) = root at reached
      generalize way : (under left inName inAttrs inner right).path = position at reached
      cases reached with
      | here => cases way
      | down step deeper =>
          rcases List.cons.inj way with ⟨length, rfl⟩
          rcases Node.append_cons_inj (Node.element.inj whole).2.2 length with ⟨rfl, rfl, rfl⟩
          rcases passing _ _ step with ⟨⟨before, entered⟩, surrounds⟩
          rcases ih deeper last with ⟨preceding, above⟩
          exact ⟨⟨before, entered, preceding⟩, surrounds, above⟩

/-- The way passes by what stands before the gap and enters what is around it. -/
theorem reaches_of_preceding {property around : Label → Prop} {gap : Gap}
    (before : gap.Preceding property) (above : gap.Above around) (top : QName × List Attr)
    (segment : List Node) :
    (Node.element top.1 top.2 (gap.fill segment)).Reaches
      (fun left child => ((∀ node ∈ left, Node.EveryLabel property node) ∧ property child.label) ∧
        around child.label)
      gap.path (gap.holding top segment) := by
  induction gap generalizing top with
  | here left right => exact .here
  | under left name attrs inner right ih =>
      exact .down ⟨⟨before.1, before.2.1⟩, above.1⟩ (ih before.2.2 above.2 (name, attrs))

/-- Another segment in the gap is another node in the place of the parent of the gap. -/
theorem replaceAt_holding (gap : Gap) (top : QName × List Attr) (segment other : List Node) :
    (Node.element top.1 top.2 (gap.fill segment)).replaceAt gap.path (gap.holding top other) =
      .element top.1 top.2 (gap.fill other) := by
  induction gap generalizing top with
  | here left right => rfl
  | under left name attrs inner right ih =>
      rw [fill, path, Node.replaceAt_down]
      exact congrArg (fun child => Node.element top.1 top.2 (left ++ child :: right))
        (ih (name, attrs))

end Positions

/-! ## Forks -/

/-- A position is that of a sibling in a gap of some length, or is below such a sibling. -/
def Covers (gap : Gap) (length : Nat) (position : Path) : Prop :=
  ∃ index rest, position = gap.path ++ index :: rest ∧
    gap.left.length ≤ index ∧ index < gap.left.length + length

/-- The position right behind the left end of a gap. -/
def first (gap : Gap) : Path := gap.path ++ [gap.left.length]

/-- The siblings on the left at the level of the root. -/
def lead : Gap → List Node
  | here left _ => left
  | under left _ _ _ _ => left

/-- What stands at the level of the root between the siblings on the left and on the right. -/
def core : Gap → List Node → List Node
  | here _ _, segment => segment
  | under _ name attrs inner _, segment => [.element name attrs (inner.fill segment)]

/-- The siblings on the right at the level of the root. -/
def tail : Gap → List Node
  | here _ right => right
  | under _ _ _ _ right => right

/-- The gap with other siblings on both sides at the level of the root. -/
def between (lead tail : List Node) : Gap → Gap
  | here _ _ => here lead tail
  | under _ name attrs inner _ => under lead name attrs inner tail

theorem fill_eq (gap : Gap) (segment : List Node) :
    gap.fill segment = gap.lead ++ (gap.core segment ++ gap.tail) := by
  cases gap <;> rfl

theorem fill_between (gap : Gap) (lead tail segment : List Node) :
    (gap.between lead tail).fill segment = lead ++ (gap.core segment ++ tail) := by
  cases gap <;> rfl

theorem between_self (gap : Gap) : gap.between gap.lead gap.tail = gap := by
  cases gap <;> rfl

theorem around_between (gap : Gap) (before after lead tail : List Node) :
    (gap.between lead tail).around before after =
      gap.between (before ++ lead) (tail ++ after) := by
  cases gap <;> rfl

/-- Two segments below a common parent, one gap before the other. -/
structure Fork (gap gap' : Gap) (segment segment' : List Node) where
  outer : Gap
  first : Gap
  second : Gap
  gap_eq : gap = outer.into (first.around [] (second.fill segment'))
  gap_eq' : gap' = outer.into (second.around (first.fill segment) [])

section Forks

variable {gap gap' : Gap} {segment segment' : List Node}

/-- Where one segment ends before the other begins there is a fork at the root. -/
theorem nonempty_fork_of_before (same : gap.fill segment = gap'.fill segment')
    (before : gap.lead.length + (gap.core segment).length ≤ gap'.lead.length) :
    Nonempty (Fork gap gap' segment segment') := by
  rw [fill_eq, fill_eq, ← List.append_assoc] at same
  have shorter : (gap.lead ++ gap.core segment).length ≤ gap'.lead.length := by simpa using before
  obtain ⟨middle, longer⟩ : gap.lead ++ gap.core segment <+: gap'.lead :=
    List.prefix_of_prefix_length_le ⟨_, same⟩ ⟨_, rfl⟩ shorter
  rw [← longer, List.append_assoc _ middle] at same
  have rest := List.append_cancel_left same
  constructor
  refine ⟨here [] [], gap.between gap.lead middle, gap'.between [] gap'.tail, ?_, ?_⟩
  · rw [fill_between, List.nil_append, into, around_between, around_between, List.nil_append,
      List.nil_append, List.append_nil, ← rest, between_self]
  · rw [fill_between, into, around_between, around_between, List.nil_append, List.append_nil,
      List.append_nil, List.append_nil, ← List.append_assoc, longer, between_self]

private theorem covers_under {left right : List Node} {name : QName} {attrs : List Attr}
    {inner : Gap} {length : Nat} {position : Path} (covers : inner.Covers length position) :
    (under left name attrs inner right).Covers length (left.length :: position) := by
  rcases covers with ⟨index, rest, rfl, lower, upper⟩
  exact ⟨index, rest, rfl, lower, upper⟩

/-- Two segments neither of which begins in the other one stand in the gaps of a fork. -/
theorem nonempty_fork (same : gap.fill segment = gap'.fill segment')
    (avoids : ¬ gap.Covers segment.length gap'.first)
    (avoids' : ¬ gap'.Covers segment'.length gap.first) :
    Nonempty (Fork gap gap' segment segment') ∨ Nonempty (Fork gap' gap segment' segment) := by
  induction gap generalizing gap' with
  | here left right =>
      by_cases before : left.length + segment.length ≤ gap'.lead.length
      · exact .inl (nonempty_fork_of_before same before)
      by_cases behind : gap'.lead.length + (gap'.core segment').length ≤ left.length
      · exact .inr (nonempty_fork_of_before same.symm behind)
      cases gap' with
      | here left' right' =>
          simp only [lead, core] at before behind
          rcases Nat.le_total left.length left'.length with ordered | ordered
          · exact absurd ⟨left'.length, [], rfl, ordered, Nat.lt_of_not_le before⟩ avoids
          · exact absurd ⟨left.length, [], rfl, ordered, Nat.lt_of_not_le behind⟩ avoids'
      | under left' name' attrs' inner' right' =>
          simp only [lead, core, List.length_singleton] at before behind
          exact absurd ⟨left'.length, inner'.first, rfl, by simp only [Gap.left]; omega,
            by simp only [Gap.left]; omega⟩ avoids
  | under left name attrs inner right ih =>
      by_cases before : left.length + 1 ≤ gap'.lead.length
      · exact .inl (nonempty_fork_of_before same before)
      by_cases behind : gap'.lead.length + (gap'.core segment').length ≤ left.length
      · exact .inr (nonempty_fork_of_before same.symm behind)
      cases gap' with
      | here left' right' =>
          simp only [lead, core] at before behind
          exact absurd ⟨left.length, inner.first, rfl, by simp only [Gap.left]; omega,
            by simp only [Gap.left]; omega⟩ avoids'
      | under left' name' attrs' inner' right' =>
          simp only [lead, core, List.length_singleton] at before behind
          have lengths : left.length = left'.length := by omega
          rcases Node.append_cons_inj same lengths with ⟨rfl, entered, rfl⟩
          rcases Node.element.inj entered with ⟨rfl, rfl, inside⟩
          have deeper := ih inside (fun covers => avoids (covers_under covers))
            (fun covers => avoids' (covers_under covers))
          apply deeper.imp
          · rintro ⟨outer, first, second, rfl, rfl⟩
            exact ⟨under left name attrs outer right, first, second, rfl, rfl⟩
          · rintro ⟨outer, first, second, rfl, rfl⟩
            exact ⟨under left name attrs outer right, first, second, rfl, rfl⟩

end Forks

end Gap

end TemplateFill
