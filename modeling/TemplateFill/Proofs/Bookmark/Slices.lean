import TemplateFill.Proofs.Bookmark.Group

/-!
# Groups as slices

The groups of siblings are consecutive slices that end where a group is closed.  They are told by
a running index as well, which goes up behind every value that closes its group, and values are in
one group as long as nothing between them closes it.
-/

namespace TemplateFill

section Slices

variable {α : Type} {closes : α → Bool} {values slice : List α} {slices : List (List α)}
  {number : Nat}

/-- Consecutive slices of a list, none of them empty. -/
structure AreSlices (slices : List (List α)) (values : List α) : Prop where
  flatten_eq : slices.flatten = values
  nonempty : ∀ slice ∈ slices, slice ≠ []

/-- Slices that end where a group is closed: the last value of each of them but the last one closes
its group, and no value before the last one of its slice does. -/
structure EndWhereClosed (closes : α → Bool) (slices : List (List α)) : Prop where
  closed : ∀ slice ∈ slices.dropLast, ∃ last ∈ slice.getLast?, closes last = true
  isOpen : ∀ slice ∈ slices, ∀ value ∈ slice.dropLast, closes value = false

/-- The running index at each value, which goes up behind every value that closes its group. -/
def runningIndexes (closes : α → Bool) (index : Nat) : List α → List Nat
  | [] => []
  | value :: rest =>
      index :: runningIndexes closes (if closes value then index + 1 else index) rest

/-- The number of the slice in which each value stands. -/
def sliceNumbers (number : Nat) : List (List α) → List Nat
  | [] => []
  | slice :: rest => List.replicate slice.length number ++ sliceNumbers (number + 1) rest

/-- Two values have the same number exactly if neither the first of them nor one between them
closes its group. -/
def TogetherWhileOpen (closes : α → Bool) (values : List α) (numbers : List Nat) : Prop :=
  ∀ first second, first < second → second < values.length →
    (numbers[first]? = numbers[second]? ↔
      ∀ between value, first ≤ between → between < second → values[between]? = some value →
        closes value = false)

namespace EndWhereClosed

theorem cons (isOpen : ∀ value ∈ slice.dropLast, closes value = false)
    (closed : slices ≠ [] → ∃ last ∈ slice.getLast?, closes last = true)
    (ends : EndWhereClosed closes slices) : EndWhereClosed closes (slice :: slices) := by
  refine ⟨?_, List.forall_mem_cons.2 ⟨isOpen, ends.isOpen⟩⟩
  cases slices with
  | nil => exact nofun
  | cons next rest =>
      rw [List.dropLast_cons_cons]
      exact List.forall_mem_cons.2 ⟨closed (List.cons_ne_nil _ _), ends.closed⟩

theorem tail (ends : EndWhereClosed closes (slice :: slices)) : EndWhereClosed closes slices := by
  refine ⟨fun other member => ?_, (List.forall_mem_cons.1 ends.isOpen).2⟩
  cases slices with
  | nil => cases member
  | cons next rest => exact ends.closed other (List.mem_cons_of_mem _ member)

/-- The first slice is open up to its last value, which closes it unless it is the only one. -/
theorem exists_last (ends : EndWhereClosed closes (slice :: slices)) (filled : slice ≠ []) :
    ∃ left last, slice = left ++ [last] ∧ (∀ value ∈ left, closes value = false) ∧
      (slices ≠ [] → closes last = true) := by
  rcases List.eq_nil_or_concat slice with rfl | ⟨left, last, rfl⟩
  · exact absurd rfl filled
  rw [List.concat_eq_append] at ends ⊢
  have isOpen := ends.isOpen _ List.mem_cons_self
  rw [List.dropLast_concat] at isOpen
  refine ⟨left, last, rfl, isOpen, fun more => ?_⟩
  rcases List.exists_cons_of_ne_nil more with ⟨next, rest, rfl⟩
  rcases ends.closed (left ++ [last]) List.mem_cons_self with ⟨other, isLast, closed⟩
  rw [List.getLast?_concat, Option.mem_some_iff] at isLast
  rw [isLast, closed]

end EndWhereClosed

/-! ## The groups are such slices -/

theorem areSlices_groupsAfter (closes : α → Bool) (values : List α) :
    AreSlices (groupsAfter closes values) values :=
  ⟨groupsAfter_flatten closes values, fun _ => ne_nil_of_mem_groupsAfter⟩

theorem endWhereClosed_groupsAfter (closes : α → Bool) (values : List α) :
    EndWhereClosed closes (groupsAfter closes values) := by
  induction values using groupsInduction closes with
  | isOpen values isOpen =>
      by_cases filled : values = []
      · rw [filled]
        exact ⟨nofun, nofun⟩
      · rw [groupsAfter_of_open isOpen filled]
        exact .cons (fun value member => isOpen value (List.dropLast_subset values member))
          (fun more => absurd rfl more) ⟨nofun, nofun⟩
  | closed left last rest isOpen closing ih =>
      rw [groupsAfter_append_cons isOpen closing]
      refine ih.cons ?_ fun _ => ⟨last, List.getLast?_concat, closing⟩
      rw [List.dropLast_concat]
      exact isOpen

/-- There are no other slices that end where a group is closed. -/
theorem AreSlices.eq_groupsAfter (areSlices : AreSlices slices values)
    (ends : EndWhereClosed closes slices) : slices = groupsAfter closes values := by
  rcases areSlices with ⟨rfl, nonempty⟩
  induction slices with
  | nil => rfl
  | cons slice rest ih =>
      rw [List.forall_mem_cons] at nonempty
      rcases ends.exists_last nonempty.1 with ⟨left, last, rfl, isOpen, closed⟩
      have others := ih ends.tail nonempty.2
      cases closing : closes last with
      | true =>
          rw [List.flatten_cons, List.append_assoc, List.singleton_append,
            groupsAfter_append_cons isOpen closing, ← others]
      | false =>
          have allOpen : ∀ value ∈ left ++ [last], closes value = false :=
            List.forall_mem_append.2 ⟨isOpen, List.forall_mem_singleton.2 closing⟩
          cases rest with
          | nil => rw [List.flatten_singleton, groupsAfter_of_open allOpen nonempty.1]
          | cons next others =>
              rw [closed (List.cons_ne_nil _ _)] at closing
              cases closing

/-! ## The running index -/

/-- The index does not go up before a value that closes its group. -/
theorem runningIndexes_append_cons {left rest : List α} {last : α}
    (isOpen : ∀ value ∈ left, closes value = false) (index : Nat) :
    runningIndexes closes index (left ++ last :: rest) =
      List.replicate left.length index ++
        index :: runningIndexes closes (if closes last then index + 1 else index) rest := by
  induction left with
  | nil => rfl
  | cons first others ih =>
      rw [List.forall_mem_cons] at isOpen
      rw [List.cons_append, runningIndexes, isOpen.1, if_neg Bool.false_ne_true, ih isOpen.2]
      rfl

/-- The numbers of slices that end where a group is closed are the running index. -/
theorem EndWhereClosed.sliceNumbers_eq (ends : EndWhereClosed closes slices)
    (nonempty : ∀ slice ∈ slices, slice ≠ []) (number : Nat) :
    sliceNumbers number slices = runningIndexes closes number slices.flatten := by
  induction slices generalizing number with
  | nil => rfl
  | cons slice rest ih =>
      rw [List.forall_mem_cons] at nonempty
      rcases ends.exists_last nonempty.1 with ⟨left, last, rfl, isOpen, closed⟩
      have others := ih ends.tail nonempty.2
      rw [sliceNumbers, List.flatten_cons, List.append_assoc, List.singleton_append,
        runningIndexes_append_cons isOpen, List.length_append, List.length_singleton,
        List.replicate_succ', List.append_assoc, List.singleton_append]
      by_cases more : rest = []
      · rw [more]
        rfl
      · rw [closed more, if_pos rfl, others]

/-- The running index counts the values before that close their groups. -/
theorem getElem?_runningIndexes {place : Nat} (inRange : place < values.length) (index : Nat) :
    (runningIndexes closes index values)[place]? =
      some (index + (values.take place).countP closes) := by
  induction values generalizing place index with
  | nil => cases inRange
  | cons value rest ih =>
      rw [runningIndexes]
      cases place with
      | zero => rfl
      | succ place =>
          rw [List.getElem?_cons_succ, ih (Nat.lt_of_succ_lt_succ inRange), List.take_succ_cons,
            List.countP_cons]
          cases closes value with
          | true => simp only [if_true, Nat.add_right_comm, Nat.add_assoc]
          | false => rfl

private theorem mem_between {first second : Nat} (value : α) :
    value ∈ (values.drop first).take (second - first) ↔
      ∃ between, first ≤ between ∧ between < second ∧ values[between]? = some value := by
  rw [List.mem_iff_getElem?]
  constructor
  · rintro ⟨offset, found⟩
    rw [List.getElem?_take] at found
    split at found
    · rw [List.getElem?_drop] at found
      exact ⟨first + offset, by omega, by omega, found⟩
    · cases found
  · rintro ⟨between, after, before, found⟩
    refine ⟨between - first, ?_⟩
    rw [List.getElem?_take_of_lt (by omega), List.getElem?_drop, Nat.add_sub_cancel' after, found]

/-- As long as nothing closes a group the running index stays. -/
theorem togetherWhileOpen_runningIndexes (closes : α → Bool) (values : List α) (index : Nat) :
    TogetherWhileOpen closes values (runningIndexes closes index values) := by
  intro first second less inRange
  have whole : values.take second =
      values.take first ++ (values.drop first).take (second - first) := by
    rw [← List.take_add, Nat.add_sub_cancel' (Nat.le_of_lt less)]
  rw [getElem?_runningIndexes (Nat.lt_trans less inRange), getElem?_runningIndexes inRange, whole,
    List.countP_append, Option.some.injEq, ← Nat.add_assoc, Nat.left_eq_add, List.countP_eq_zero]
  simp only [mem_between, Bool.not_eq_true]
  constructor
  · exact fun none between value after before found => none value ⟨between, after, before, found⟩
  · rintro allOpen value ⟨between, after, before, found⟩
    exact allOpen between value after before found

/-! ## Slices told by their numbers -/

private theorem getElem?_sliceNumbers_cons {place : Nat} (inRange : place < slice.length) :
    (sliceNumbers number (slice :: slices))[place]? = some number := by
  rw [sliceNumbers, List.getElem?_append_left (by simpa using inRange),
    List.getElem?_replicate_of_lt inRange]

private theorem getElem?_sliceNumbers_add (place : Nat) :
    (sliceNumbers number (slice :: slices))[slice.length + place]? =
      (sliceNumbers (number + 1) slices)[place]? := by
  rw [sliceNumbers, List.getElem?_append_right (by simp), List.length_replicate,
    Nat.add_sub_cancel_left]

/-- What holds of all slices holds of those behind the first. -/
private theorem TogetherWhileOpen.tail
    (together :
      TogetherWhileOpen closes (slice ++ values) (sliceNumbers number (slice :: slices))) :
    TogetherWhileOpen closes values (sliceNumbers (number + 1) slices) := by
  intro first second less inRange
  have shifted := together (slice.length + first) (slice.length + second) (by omega) (by simpa)
  rw [getElem?_sliceNumbers_add, getElem?_sliceNumbers_add] at shifted
  rw [shifted]
  constructor
  · intro allOpen between value after before found
    apply allOpen (slice.length + between) value (by omega) (by omega)
    rw [List.getElem?_append_right (by omega), Nat.add_sub_cancel_left, found]
  · intro allOpen between value after before found
    rw [List.getElem?_append_right (by omega)] at found
    exact allOpen (between - slice.length) value (by omega) (by omega) found

/-- Slices whose values are together as long as nothing closes their group end where a group is
closed. -/
theorem endWhereClosed_of_together (nonempty : ∀ slice ∈ slices, slice ≠ [])
    (together : TogetherWhileOpen closes slices.flatten (sliceNumbers number slices)) :
    EndWhereClosed closes slices := by
  induction slices generalizing number with
  | nil => exact ⟨nofun, nofun⟩
  | cons slice rest ih =>
      rw [List.forall_mem_cons] at nonempty
      rw [List.flatten_cons] at together
      have more := ih nonempty.2 together.tail
      rcases List.eq_nil_or_concat slice with rfl | ⟨left, last, rfl⟩
      · exact absurd rfl nonempty.1
      rw [List.concat_eq_append] at together ⊢
      refine more.cons ?_ fun filled => ⟨last, List.getLast?_concat, ?_⟩
      · -- A value before the last one is in one slice with the next value.
        rw [List.dropLast_concat]
        intro value member
        rcases List.mem_iff_getElem?.1 member with ⟨place, found⟩
        have inside : place < left.length := (List.getElem?_eq_some_iff.1 found).1
        have same := together place (place + 1) (Nat.lt_succ_self place) (by simp; omega)
        rw [getElem?_sliceNumbers_cons (by simp; omega),
          getElem?_sliceNumbers_cons (by simp; omega)] at same
        apply same.1 rfl place value (Nat.le_refl _) (Nat.lt_succ_self place)
        rw [List.append_assoc, List.getElem?_append_left inside, found]
      · -- The last value is not in one slice with the first one of the next slice.
        rcases List.exists_cons_of_ne_nil filled with ⟨next, others, rfl⟩
        have first := List.length_pos_iff.2 (nonempty.2 next List.mem_cons_self)
        have behind : (sliceNumbers number ((left ++ [last]) :: next :: others))[left.length + 1]? =
            some (number + 1) := by
          have whole : left.length + 1 = (left ++ [last]).length + 0 := by simp
          rw [whole, getElem?_sliceNumbers_add, getElem?_sliceNumbers_cons first]
        have apart := together left.length (left.length + 1) (Nat.lt_succ_self _) (by simp; omega)
        rw [getElem?_sliceNumbers_cons (by simp), behind] at apart
        cases closing : closes last with
        | true => rfl
        | false =>
            have same : some number = some (number + 1) := by
              refine apart.2 fun between value after before found => ?_
              have isLast : between = left.length := by omega
              rw [isLast, List.append_assoc, List.getElem?_append_right (Nat.le_refl _),
                Nat.sub_self, List.singleton_append, List.getElem?_cons_zero,
                Option.some.injEq] at found
              rw [← found, closing]
            cases same

/-- Of all slices of a list only its groups end where a group is closed.  The same slices are told
by what is together in them, and by the running index. -/
theorem AreSlices.grouping_iff (areSlices : AreSlices slices values) :
    (slices = groupsAfter closes values ↔ EndWhereClosed closes slices) ∧
      (EndWhereClosed closes slices ↔ TogetherWhileOpen closes values (sliceNumbers 0 slices)) ∧
      (EndWhereClosed closes slices ↔ sliceNumbers 0 slices = runningIndexes closes 0 values) := by
  have numbers (ends : EndWhereClosed closes slices) :
      sliceNumbers 0 slices = runningIndexes closes 0 values := by
    rw [ends.sliceNumbers_eq areSlices.nonempty, areSlices.flatten_eq]
  have ends (together : TogetherWhileOpen closes values (sliceNumbers 0 slices)) :
      EndWhereClosed closes slices := by
    rw [← areSlices.flatten_eq] at together
    exact endWhereClosed_of_together areSlices.nonempty together
  refine ⟨⟨?_, areSlices.eq_groupsAfter⟩, ⟨fun closed => ?_, ends⟩, numbers, fun same => ends ?_⟩
  · rintro rfl
    exact endWhereClosed_groupsAfter closes values
  · rw [numbers closed]
    exact togetherWhileOpen_runningIndexes closes values 0
  · rw [same]
    exact togetherWhileOpen_runningIndexes closes values 0

/-- A list ends with values that are open, behind one that closes its group. -/
theorem exists_open_end (closes : α → Bool) (values : List α) :
    ∃ front taken, values = front ++ taken ∧ (∀ value ∈ taken, closes value = false) ∧
      ∀ last ∈ front.getLast?, closes last = true := by
  induction values using groupsInduction closes with
  | isOpen values isOpen => exact ⟨[], values, rfl, isOpen, nofun⟩
  | closed left last rest isOpen closing ih =>
      rcases ih with ⟨front, taken, rfl, isOpen', ends⟩
      refine ⟨left ++ last :: front, taken, by simp, isOpen', fun value isLast => ?_⟩
      cases front with
      | nil =>
          rw [List.getLast?_concat, Option.mem_some_iff] at isLast
          rw [← isLast, closing]
      | cons next others =>
          exact ends value (by simp_all [List.getLast?_append, List.getLast?_cons])

end Slices

namespace Node

variable {front taken before after rest nodes : List Node} {node mark : Node}

/-! ## What becomes of each sibling -/

/-- A sibling stays where it is: it is regrouped by itself, and so are the siblings before it and
behind it. -/
def StaysAlone (before : List Node) (node : Node) (after : List Node) : Prop :=
  regroupAll (before ++ node :: after) = regroupAll before ++ node.regroup :: regroupAll after

/-- A paragraph mark becomes one paragraph, which takes in the inline siblings right before it, and
the other siblings are regrouped by themselves. -/
structure TakesIn (front taken : List Node) (mark : Node) (after : List Node) : Prop where
  isMark : mark.isParagraph = true
  inline : AllInline taken
  regroupAll_eq : regroupAll (front ++ taken ++ mark :: after) =
    regroupAll front ++ mark.mapChildren (· ++ taken.map regroup) :: regroupAll after

theorem takesIn_of_ends (ends : ∀ last ∈ front.getLast?, last.isBlockLevel = true)
    (inline : AllInline taken) (isMark : mark.isParagraph = true) (after : List Node) :
    TakesIn front taken mark after := by
  rcases exists_of_isParagraph isMark with ⟨name, attrs, props, rfl, paragraph⟩
  refine ⟨isMark, inline, ?_⟩
  rw [List.append_assoc, regroupAll_append ends, regroupAll_paragraph inline paragraph]
  rfl

/-- Every paragraph mark takes in the siblings before it, back to the last one that is
block-level. -/
theorem exists_takesIn (before : List Node) (isMark : mark.isParagraph = true)
    (after : List Node) :
    ∃ front taken, before = front ++ taken ∧ TakesIn front taken mark after := by
  rcases exists_open_end isBlockLevel before with ⟨front, taken, rfl, inline, ends⟩
  exact ⟨front, taken, rfl, takesIn_of_ends ends inline isMark after⟩

/-- Inline siblings before a group that no mark closes stay where they are. -/
theorem regroupAll_append_unmarked (inline : AllInline taken)
    (unmarked : firstGroupMarked rest = false) :
    regroupAll (taken ++ rest) = taken.map regroup ++ regroupAll rest := by
  induction taken with
  | nil => rfl
  | cons node others ih =>
      rcases List.forall_mem_cons.1 inline with ⟨here, later⟩
      have behind : firstGroupMarked (others ++ rest) = false := by
        rw [firstGroupMarked_append_inline later, unmarked]
      rw [List.cons_append, regroupAll_cons_unmarked (not_isParagraph_of_inline here) (.inr behind),
        ih later, List.map_cons, List.cons_append]

theorem staysAlone_of_unmarked (other : node.isParagraph = false) (before : List Node)
    (alone : node.isBlockLevel = true ∨ firstGroupMarked after = false) :
    StaysAlone before node after := by
  rcases exists_open_end isBlockLevel before with ⟨front, taken, rfl, inline, ends⟩
  have unmarked : firstGroupMarked (node :: after) = false := by
    cases isBlock : node.isBlockLevel with
    | true => rw [firstGroupMarked_cons_block isBlock, other]
    | false => rw [firstGroupMarked_cons_inline isBlock]; simpa [isBlock] using alone
  rw [StaysAlone, List.append_assoc, regroupAll_append ends,
    regroupAll_append_unmarked inline unmarked, regroupAll_cons_unmarked other alone,
    regroupAll_append_inline inline, List.append_assoc]

/-- Every other sibling stays where it is, or the next paragraph mark takes it in. -/
theorem staysAlone_or_takesIn (other : node.isParagraph = false) (before after : List Node) :
    StaysAlone before node after ∨
      ∃ front earlier later mark rest, before = front ++ earlier ∧ after = later ++ mark :: rest ∧
        TakesIn front (earlier ++ node :: later) mark rest := by
  cases isBlock : node.isBlockLevel with
  | true => exact .inl (staysAlone_of_unmarked other before (.inl isBlock))
  | false =>
      cases marked : firstGroupMarked after with
      | false => exact .inl (staysAlone_of_unmarked other before (.inr marked))
      | true =>
          rcases exists_of_firstGroupMarked marked with
            ⟨later, name, attrs, props, rest, rfl, laterInline, paragraph⟩
          rcases exists_open_end isBlockLevel before with ⟨front, earlier, rfl, inline, ends⟩
          refine .inr ⟨front, earlier, later, _, rest, rfl, rfl, takesIn_of_ends ends ?_ ?_ rest⟩
          · exact List.forall_mem_append.2 ⟨inline, List.forall_mem_cons.2 ⟨isBlock, laterInline⟩⟩
          · simpa [isParagraph] using paragraph

theorem isParagraph_regroup (node : Node) : node.regroup.isParagraph = node.isParagraph := by
  rw [isParagraph, kind_regroup, isParagraph]

private theorem filter_isParagraph_of_inline (inline : AllInline nodes) :
    nodes.filter isParagraph = [] := by
  rw [List.filter_eq_nil_iff]
  intro node member
  rw [not_isParagraph_of_inline (inline node member)]
  exact Bool.false_ne_true

private theorem filter_isParagraph_map_regroup (inline : AllInline nodes) :
    (nodes.map regroup).filter isParagraph = [] := by
  have none := filter_isParagraph_of_inline inline
  rw [List.filter_eq_nil_iff] at none ⊢
  rw [List.forall_mem_map]
  intro node member
  rw [isParagraph_regroup]
  exact none node member

/-- There is one paragraph for each paragraph mark, in the same order. -/
theorem map_label_paragraphs (nodes : List Node) :
    ((regroupAll nodes).filter isParagraph).map label = (nodes.filter isParagraph).map label := by
  induction nodes using groupInduction with
  | inline nodes inline =>
      rw [regroupAll_inline inline, filter_isParagraph_map_regroup inline,
        filter_isParagraph_of_inline inline]
  | mark left name attrs props rest inline kind ih =>
      have isMark : ∀ children, (element name attrs children).isParagraph = true := by
        simp [isParagraph, kind]
      rw [regroupAll_paragraph inline kind, List.filter_append, filter_isParagraph_of_inline inline,
        List.nil_append, List.filter_cons_of_pos (isMark _), List.filter_cons_of_pos (isMark _),
        List.map_cons, List.map_cons, ih]
      rfl
  | block left last rest inline isBlock other ih =>
      have noMark : ¬ last.isParagraph = true := by simp [other]
      have noParagraph : ¬ last.regroup.isParagraph = true := by simp [isParagraph_regroup, other]
      rw [regroupAll_block inline isBlock other, List.filter_append, List.filter_append,
        filter_isParagraph_of_inline inline, filter_isParagraph_map_regroup inline,
        List.filter_cons_of_neg noMark, List.filter_cons_of_neg noParagraph, List.nil_append,
        List.nil_append, ih]

/-- Regrouping goes by groups.  A paragraph mark is the last of its group, every mark becomes one
paragraph, and every other sibling becomes one node, which stays where the sibling was or is in the
paragraph of the next mark. -/
structure RegroupsByGroups (nodes : List Node) : Prop where
  groups : regroupAll nodes =
    (groupsAfter isBlockLevel nodes).flatMap fun group => closeGroup (membersOf group)
  marksLast : ∀ group ∈ groupsAfter isBlockLevel nodes, ∀ node ∈ group.dropLast,
    node.isParagraph = false
  inOrder : ((regroupAll nodes).filter isParagraph).map label =
    (nodes.filter isParagraph).map label
  marks : ∀ before mark after, nodes = before ++ mark :: after → mark.isParagraph = true →
    ∃ front taken, before = front ++ taken ∧ TakesIn front taken mark after
  others : ∀ before node after, nodes = before ++ node :: after → node.isParagraph = false →
    StaysAlone before node after ∨
      ∃ front earlier later mark rest, before = front ++ earlier ∧ after = later ++ mark :: rest ∧
        TakesIn front (earlier ++ node :: later) mark rest

theorem regroupsByGroups (nodes : List Node) : RegroupsByGroups nodes where
  groups := regroupAll_eq_flatMap nodes
  marksLast group member node among := not_isParagraph_of_inline
    ((endWhereClosed_groupsAfter isBlockLevel nodes).isOpen group member node among)
  inOrder := map_label_paragraphs nodes
  marks before _ after _ isMark := exists_takesIn before isMark after
  others before _ after _ other := staysAlone_or_takesIn other before after

end Node

end TemplateFill
