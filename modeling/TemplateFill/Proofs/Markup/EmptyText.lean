import TemplateFill.Proofs.Markup.Canonical

/-!
# Empty texts

An empty text is written as nothing, so it is lost when a written document is read.  Where no texts
stand side by side and none is indentation, nothing else gets lost.  An element whose only child is
an empty text is then written in another way, as one tag and not as two.
-/

namespace TemplateFill

open Markup

namespace Node

/-- The texts of a tree stand as the reader leaves them; where `filled` holds, none is empty. -/
def PartsTexts (filled : Prop) (root : Node) : Prop :=
  ∀ inner ∈ root.selfAndDescendants, TextsParted filled inner.children

theorem partsTexts_element {filled : Prop} {name : QName} {attrs : List Attr}
    {children : List Node} :
    PartsTexts filled (.element name attrs children) ↔
      TextsParted filled children ∧ ∀ child ∈ children, PartsTexts filled child := by
  constructor
  · intro parted
    refine ⟨parted _ (self_mem_selfAndDescendants _), fun child member inner below => ?_⟩
    exact parted inner (mem_selfAndDescendants_element.2 (.inr ⟨child, member, below⟩))
  · rintro ⟨top, each⟩ inner member
    rcases mem_selfAndDescendants_element.1 member with rfl | ⟨child, among, below⟩
    · exact top
    · exact each child among inner below

theorem partsTexts_of_childless {filled : Prop} {node : Node} (childless : node.descendants = [])
    (noChildren : node.children = []) : PartsTexts filled node := by
  intro inner member
  rw [mem_selfAndDescendants_of_childless childless] at member
  rw [member, noChildren]
  exact textsParted_dropIndentation .nil

mutual

/-- A node without the empty texts below it. -/
def dropEmptyTexts : Node → Node
  | .element name attrs children => .element name attrs (dropEmptyTextsAll children)
  | node => node

/-- Siblings without the empty texts among and below them. -/
def dropEmptyTextsAll : List Node → List Node
  | [] => []
  | node :: rest =>
      if node.isEmptyText then dropEmptyTextsAll rest
      else dropEmptyTexts node :: dropEmptyTextsAll rest

end

@[simp] theorem label_dropEmptyTexts (node : Node) : node.dropEmptyTexts.label = node.label := by
  cases node <;> rfl

theorem dropEmptyTextsAll_eq (nodes : List Node) :
    dropEmptyTextsAll nodes = (nodes.filter (!isEmptyText ·)).map dropEmptyTexts := by
  induction nodes with
  | nil => rfl
  | cons node rest ih =>
      rw [dropEmptyTextsAll, ih]
      split
      · rename_i empty
        rw [List.filter_cons_of_neg (by simp [empty])]
      · rename_i filled
        rw [List.filter_cons_of_pos (by simp [filled]), List.map_cons]

/-- Where texts stand as the reader leaves them, only empty ones get lost. -/
theorem reread_eq_dropEmptyTexts {filled : Prop} {node : Node} (parted : PartsTexts filled node) :
    node.reread = node.dropEmptyTexts := by
  induction node using treeInduction with
  | element name attrs children ih =>
      rcases partsTexts_element.1 parted with ⟨top, each⟩
      have noFront : ∀ last ∈ ([] : List Node).head?, ∀ first ∈ children.head?,
          last.text? = none ∨ first.text? = none := by
        intro last none
        cases none
      have below : (children.filter (!isEmptyText ·)).map reread = dropEmptyTextsAll children := by
        rw [dropEmptyTextsAll_eq]
        refine List.map_congr_left fun child member => ?_
        exact ih child (List.mem_filter.1 member).1 (each child (List.mem_filter.1 member).1)
      have solid : Frame.dropIndentation (dropEmptyTextsAll children) =
          dropEmptyTextsAll children := by
        rw [Frame.dropIndentation]
        split
        · rename_i elements
          have labels : ∀ child ∈ dropEmptyTextsAll children, ∃ source ∈ children,
              source.label = child.label := by
            intro child member
            rw [dropEmptyTextsAll_eq, List.mem_map] at member
            rcases member with ⟨source, among, rfl⟩
            exact ⟨source, (List.mem_filter.1 among).1, (label_dropEmptyTexts source).symm⟩
          have element : children.any isElement = true := by
            rcases List.any_eq_true.1 elements with ⟨child, member, isElement⟩
            rcases labels child member with ⟨source, among, same⟩
            refine List.any_eq_true.2 ⟨source, among, ?_⟩
            rw [Node.isElement, name?, same]
            exact isElement
          rw [List.filter_eq_self]
          intro child member
          rcases labels child member with ⟨source, among, same⟩
          have kept := top.notIndentation element source among
          rw [Frame.isBlankTextNode, text?, same] at kept
          rw [Frame.isBlankTextNode, text?, kept, Bool.not_false]
        · rfl
      rw [reread_element, rereadAll_of_apart top.apart noFront, List.append_nil,
        List.reverse_reverse, below, solid]
      rfl
  | text | comment => rfl

/-! ## Documents without empty texts -/

theorem length_dropEmptyTextsAll_le (nodes : List Node) :
    (dropEmptyTextsAll nodes).length ≤ nodes.length := by
  rw [dropEmptyTextsAll_eq, List.length_map]
  exact List.length_filter_le _ _

private theorem dropEmptyTextsAll_eq_self_iff {nodes : List Node} :
    dropEmptyTextsAll nodes = nodes ↔
      ∀ node ∈ nodes, node.isEmptyText = false ∧ node.dropEmptyTexts = node := by
  induction nodes with
  | nil => exact ⟨fun _ => List.forall_mem_nil _, fun _ => rfl⟩
  | cons node rest ih =>
      rw [List.forall_mem_cons, dropEmptyTextsAll, ← ih]
      cases empty : node.isEmptyText with
      | true =>
          rw [if_pos rfl]
          constructor
          · intro same
            have shorter := length_dropEmptyTextsAll_le rest
            rw [same, List.length_cons] at shorter
            exact absurd shorter (Nat.not_succ_le_self _)
          · exact fun none => absurd none.1.1 nofun
      | false =>
          rw [if_neg nofun, List.cons.injEq]
          exact ⟨fun both => ⟨⟨rfl, both.1⟩, both.2⟩, fun both => ⟨both.1.2, both.2⟩⟩

/-- A document is the same without its empty texts only if it has none. -/
theorem dropEmptyTexts_eq_self_iff {node : Node} :
    node.dropEmptyTexts = node ↔ ∀ inner ∈ node.descendants, inner.text? ≠ some "" := by
  induction node using treeInduction with
  | element name attrs children ih =>
      rw [dropEmptyTexts, element.injEq, dropEmptyTextsAll_eq_self_iff, descendants_element]
      simp only [true_and]
      constructor
      · intro each inner member
        rcases mem_descendantsOfAll.1 member with ⟨child, among, below⟩
        rcases List.mem_cons.1 below with rfl | deeper
        · exact isEmptyText_eq_false.1 (each inner among).1
        · exact (ih child among).1 (each child among).2 inner deeper
      · intro none child among
        constructor
        · apply isEmptyText_eq_false.2
          exact none child (mem_descendantsOfAll.2 ⟨child, among, self_mem_selfAndDescendants _⟩)
        · refine (ih child among).2 fun inner deeper => ?_
          exact none inner (mem_descendantsOfAll.2 ⟨child, among, List.mem_cons_of_mem _ deeper⟩)
  | text | comment => exact ⟨fun _ => List.forall_mem_nil _, fun _ => rfl⟩

/-! ## How they are written -/

theorem length_write_element (name : QName) (attrs : List Attr) (children : List Node) :
    (element name attrs children).write.length =
      (writeTag name attrs).length + 3 + (writeAll children).length +
        if children = [] then 0 else name.written.toList.length + 2 := by
  cases children with
  | nil => simp [write, writeAll]
  | cons child rest =>
      simp only [write, writeAll, List.length_append, List.length_cons, List.length_nil,
        if_neg (List.cons_ne_nil child rest)]
      omega

private theorem write_of_isEmptyText {node : Node} (empty : node.isEmptyText = true) :
    node.write = [] := by
  cases node with
  | text content =>
      have none : content = "" := Option.some.inj (beq_iff_eq.1 empty)
      rw [none]
      rfl
  | element | comment => cases beq_iff_eq.1 empty

private theorem writeAll_dropEmptyTextsAll {nodes : List Node}
    (each : ∀ node ∈ nodes, node.dropEmptyTexts.write = node.write) :
    writeAll (dropEmptyTextsAll nodes) = writeAll nodes := by
  induction nodes with
  | nil => rfl
  | cons node rest ih =>
      rw [List.forall_mem_cons] at each
      rw [dropEmptyTextsAll, writeAll]
      split
      · rename_i empty
        rw [write_of_isEmptyText empty, List.nil_append, ih each.2]
      · rw [writeAll, each.1, ih each.2]

/-- Where no element holds an empty text only, empty texts do not show. -/
theorem write_dropEmptyTexts {filled : Prop} {node : Node} (parted : PartsTexts filled node)
    (noneLone : ∀ inner ∈ node.selfAndDescendants, inner.children ≠ [.text ""]) :
    node.dropEmptyTexts.write = node.write := by
  induction node using treeInduction with
  | element name attrs children ih =>
      rcases partsTexts_element.1 parted with ⟨top, each⟩
      have below : writeAll (dropEmptyTextsAll children) = writeAll children := by
        refine writeAll_dropEmptyTextsAll fun child member => ?_
        refine ih child member (each child member) fun inner deeper => ?_
        exact noneLone inner (mem_selfAndDescendants_element.2 (.inr ⟨child, member, deeper⟩))
      have lone : children ≠ [.text ""] := noneLone _ (self_mem_selfAndDescendants _)
      rw [dropEmptyTexts]
      cases left : dropEmptyTextsAll children with
      | nil =>
          cases children with
          | nil => rfl
          | cons child rest =>
              -- All children are empty texts, and two of them would stand side by side.
              rw [dropEmptyTextsAll_eq, List.map_eq_nil_iff, List.filter_eq_nil_iff] at left
              have empty : ∀ node ∈ child :: rest, node = .text "" := by
                intro node member
                have isEmpty : node.isEmptyText = true := by simpa using left node member
                cases node with
                | text content => rw [Option.some.inj (beq_iff_eq.1 isEmpty)]
                | element | comment => cases beq_iff_eq.1 isEmpty
              rw [List.forall_mem_cons] at empty
              rcases empty with ⟨rfl, others⟩
              cases rest with
              | nil => exact absurd rfl lone
              | cons next rest =>
                  rw [List.forall_mem_cons] at others
                  rcases others with ⟨rfl, _⟩
                  rcases (List.isChain_cons.1 top.apart).1 _ rfl with none | none <;> cases none
      | cons first others =>
          cases children with
          | nil => cases left
          | cons child rest =>
              rw [left] at below
              rw [write, write]
              rw [writeAll, writeAll] at below
              rw [below]
  | text | comment => rfl

private theorem length_writeAll_dropEmptyTextsAll {nodes : List Node}
    (each : ∀ node ∈ nodes, node.dropEmptyTexts.write.length ≤ node.write.length) :
    (writeAll (dropEmptyTextsAll nodes)).length ≤ (writeAll nodes).length ∧
      ∀ node ∈ nodes, node.dropEmptyTexts.write.length < node.write.length →
        (writeAll (dropEmptyTextsAll nodes)).length < (writeAll nodes).length := by
  induction nodes with
  | nil => exact ⟨Nat.le_refl _, List.forall_mem_nil _⟩
  | cons node rest ih =>
      rw [List.forall_mem_cons] at each
      rcases ih each.2 with ⟨least, less⟩
      rw [dropEmptyTextsAll, writeAll, List.length_append, List.forall_mem_cons]
      split
      · rename_i empty
        rw [write_of_isEmptyText empty, List.length_nil, Nat.zero_add]
        exact ⟨least, fun none => absurd none (Nat.not_lt_zero _), less⟩
      · rw [writeAll, List.length_append]
        refine ⟨Nat.add_le_add each.1 least,
          fun shorter => Nat.add_lt_add_of_lt_of_le shorter least,
          fun child member shorter => Nat.add_lt_add_of_le_of_lt each.1 (less child member shorter)⟩

theorem length_write_dropEmptyTexts_le (node : Node) :
    node.dropEmptyTexts.write.length ≤ node.write.length := by
  induction node using treeInduction with
  | element name attrs children ih =>
      have below := (length_writeAll_dropEmptyTextsAll ih).1
      rw [dropEmptyTexts, length_write_element, length_write_element]
      by_cases childless : children = []
      · rw [childless]
        exact Nat.le_refl _
      · rw [if_neg childless]
        split <;> omega
  | text | comment => exact Nat.le_refl _

/-- An element that holds an empty text only is written in a shorter way without it. -/
theorem length_write_dropEmptyTexts_lt {node inner : Node}
    (member : inner ∈ node.selfAndDescendants) (lone : inner.children = [.text ""]) :
    node.dropEmptyTexts.write.length < node.write.length := by
  induction node using treeInduction with
  | element name attrs children ih =>
      rw [dropEmptyTexts, length_write_element, length_write_element]
      rcases mem_selfAndDescendants_element.1 member with rfl | ⟨child, among, below⟩
      · rw [children_element] at lone
        have left : dropEmptyTextsAll [.text ""] = [] := rfl
        rw [lone, left, if_pos rfl, if_neg (List.cons_ne_nil _ _), writeAll, List.length_nil]
        omega
      · have shorter := (length_writeAll_dropEmptyTextsAll fun child _ =>
          length_write_dropEmptyTexts_le child).2 child among (ih child among below)
        rw [if_neg (List.ne_nil_of_mem among)]
        split <;> omega
  | text | comment =>
      rw [mem_selfAndDescendants_of_childless rfl] at member
      rw [member] at lone
      cases lone

/-- Where texts stand as the reader leaves them, a document is written in the same way without its
empty texts only if no element holds such a text and nothing else. -/
theorem toBytes_dropEmptyTexts_iff {filled : Prop} {node : Node}
    (parted : PartsTexts filled node) :
    node.dropEmptyTexts.toBytes = node.toBytes ↔
      ∀ inner ∈ node.selfAndDescendants, inner.children ≠ [.text ""] := by
  rw [toBytes_inj]
  constructor
  · intro same inner member lone
    have shorter := length_write_dropEmptyTexts_lt member lone
    rw [same] at shorter
    exact Nat.lt_irrefl _ shorter
  · exact write_dropEmptyTexts parted

end Node

end TemplateFill
