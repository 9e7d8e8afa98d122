import TemplateFill.Proofs.Bookmark.Filling

/-!
# Paragraphs inside paragraphs

A paragraph mark takes in all inline siblings in front of it.  Content controls with a paragraph in
them are not inline, but all other wrappers are, so the round trip through the flat form puts such a
wrapper into the paragraph that follows it, and the paragraphs in the wrapper along with it.  This
is the only way in which the round trip nests paragraphs.
-/

namespace TemplateFill.Node

/-- No paragraph of a tree has a paragraph below it. -/
def ParagraphsApart (root : Node) : Prop :=
  ∀ outer ∈ root.selfAndDescendants, outer.isParagraph = true →
    ∀ inner ∈ outer.descendants, inner.isParagraph = false

instance : DecidablePred ParagraphsApart := fun root =>
  inferInstanceAs (Decidable (∀ outer ∈ root.selfAndDescendants, outer.isParagraph = true →
    ∀ inner ∈ outer.descendants, inner.isParagraph = false))

/-- The first block-level node that siblings show in the flat form is a paragraph mark: inline
siblings are followed by a paragraph whose content is inline. -/
def LeadsToMark (siblings : List Node) : Prop :=
  ∃ between paragraph right, siblings = between ++ paragraph :: right ∧ AllInline between ∧
    paragraph.isParagraph = true ∧ AllInline paragraph.children

/-- Some sibling holds a paragraph and is inline, and a paragraph mark takes it in. -/
def TrapsParagraph (siblings : List Node) : Prop :=
  ∃ left wrapper right, siblings = left ++ wrapper :: right ∧ wrapper.holdsParagraph = true ∧
    wrapper.isBlockLevel = false ∧ LeadsToMark right

theorem leadsToMark_cons {node : Node} {rest : List Node} :
    LeadsToMark (node :: rest) ↔
      node.isParagraph = true ∧ AllInline node.children ∨
        node.isBlockLevel = false ∧ LeadsToMark rest := by
  constructor
  · rintro ⟨between, paragraph, right, whole, inline, isParagraph, content⟩
    cases between with
    | nil =>
        cases whole
        exact .inl ⟨isParagraph, content⟩
    | cons first between =>
        cases whole
        rcases List.forall_mem_cons.1 inline with ⟨here, others⟩
        exact .inr ⟨here, between, paragraph, right, rfl, others, isParagraph, content⟩
  · rintro (⟨isParagraph, content⟩ | ⟨here, between, paragraph, right, rfl, others, rest⟩)
    · exact ⟨[], node, rest, rfl, List.forall_mem_nil _, isParagraph, content⟩
    · exact ⟨node :: between, paragraph, right, rfl, List.forall_mem_cons.2 ⟨here, others⟩, rest⟩

theorem trapsParagraph_cons {node : Node} {rest : List Node} :
    TrapsParagraph (node :: rest) ↔
      node.holdsParagraph = true ∧ node.isBlockLevel = false ∧ LeadsToMark rest ∨
        TrapsParagraph rest := by
  constructor
  · rintro ⟨left, wrapper, right, whole, trapped⟩
    cases left with
    | nil =>
        cases whole
        exact .inl trapped
    | cons first left =>
        cases whole
        exact .inr ⟨left, wrapper, right, rfl, trapped⟩
  · rintro (trapped | ⟨left, wrapper, right, rfl, trapped⟩)
    · exact ⟨[], node, rest, rfl, trapped⟩
    · exact ⟨node :: left, wrapper, right, rfl, trapped⟩

/-! ## Paragraphs in a tree -/

section Holds

variable {name : QName} {attrs : List Attr} {children : List Node}

theorem isParagraph_of_not_holds {node : Node} (bare : node.holdsParagraph = false) :
    node.isParagraph = false := by
  rw [holdsParagraph, selfAndDescendants, List.any_cons, Bool.or_eq_false_iff] at bare
  exact bare.1

theorem not_holds_of_child {node child : Node} (bare : node.holdsParagraph = false)
    (member : child ∈ node.children) : child.holdsParagraph = false := by
  cases node with
  | element name attrs children =>
      rw [holdsParagraph_element, Bool.or_eq_false_iff, List.any_eq_false] at bare
      exact Bool.eq_false_iff.2 (bare.2 child member)
  | text | comment => cases member

theorem paragraphsApart_of_not_holds {node : Node} (bare : node.holdsParagraph = false) :
    ParagraphsApart node := by
  rw [holdsParagraph, List.any_eq_false] at bare
  exact fun outer member isParagraph => absurd isParagraph (bare outer member)

/-- Below a paragraph there is no other. -/
theorem paragraphsApart_paragraph (paragraph : name.kind = .paragraph) :
    ParagraphsApart (.element name attrs children) ↔
      ∀ child ∈ children, child.holdsParagraph = false := by
  constructor
  · intro apart child member
    rw [holdsParagraph, List.any_eq_false]
    intro inner below
    rw [Bool.not_eq_true]
    refine apart _ (self_mem_selfAndDescendants _) (by simp [isParagraph, paragraph]) inner ?_
    exact mem_descendantsOfAll.2 ⟨child, member, below⟩
  · intro bare outer member isParagraph inner below
    rcases mem_selfAndDescendants_element.1 member with rfl | ⟨child, among, inside⟩
    · rcases mem_descendantsOfAll.1 below with ⟨child, among, inside⟩
      have none := bare child among
      rw [holdsParagraph, List.any_eq_false] at none
      exact Bool.eq_false_iff.2 (none inner inside)
    · exact paragraphsApart_of_not_holds (bare child among) outer inside isParagraph inner below

theorem paragraphsApart_container (other : name.kind ≠ .paragraph) :
    ParagraphsApart (.element name attrs children) ↔ ∀ child ∈ children, ParagraphsApart child := by
  constructor
  · intro apart child member outer below
    exact apart outer (mem_selfAndDescendants_element.2 (.inr ⟨child, member, below⟩))
  · intro each outer member isParagraph
    rcases mem_selfAndDescendants_element.1 member with rfl | ⟨child, among, below⟩
    · exact absurd (by simpa [Node.isParagraph] using isParagraph) other
    · exact each child among outer below isParagraph

/-- Where a paragraph holds no other, there is none that could be trapped. -/
theorem not_trapsParagraph_of_bare {node outer : Node}
    (bare : ∀ child ∈ node.children, child.holdsParagraph = false)
    (member : outer ∈ node.selfAndDescendants) : ¬ TrapsParagraph outer.children := by
  induction node using treeInduction with
  | element name attrs children ih =>
      rcases mem_selfAndDescendants_element.1 member with rfl | ⟨child, among, below⟩
      · rintro ⟨left, wrapper, right, whole, holds, _⟩
        have none := bare wrapper (by rw [whole]; simp)
        rw [holds] at none
        cases none
      · exact ih child among (fun _ => not_holds_of_child (bare child among)) below
  | text | comment =>
      rw [mem_selfAndDescendants_of_childless rfl] at member
      rw [member]
      rintro ⟨left, wrapper, right, whole, _⟩
      exact absurd whole (List.append_ne_nil_of_right_ne_nil left (List.cons_ne_nil _ _)).symm

end Holds

/-! ## The flat form of siblings -/

theorem holdsParagraph_flatten (node : Node) :
    node.flatten.holdsParagraph = node.holdsParagraph := by
  cases node with
  | element name attrs children =>
      rw [flatten_element, holdsParagraph_element, holdsParagraph_element, flattenAll_eq_flatMap,
        List.any_flatMap, any_congr_of_mem fun child _ => any_holdsParagraph_flattenNode child]
  | text | comment => rfl

/-- A paragraph that holds no other is its content and a mark in the flat form. -/
theorem exists_flattenNode {node : Node} (isParagraph : node.isParagraph = true)
    (apart : ParagraphsApart node) :
    ∃ content name attrs props, flattenNode node = content ++ [element name attrs props] ∧
      name.kind = .paragraph ∧ (∀ inner ∈ content ++ props, inner.holdsParagraph = false) ∧
      (AllInline content ↔ AllInline node.children) := by
  rcases exists_of_isParagraph isParagraph with ⟨name, attrs, children, rfl, paragraph⟩
  have bare := (paragraphsApart_paragraph paragraph).1 apart
  have lifted : flattenAll (children.filter (!isParagraphProps ·)) =
      (children.filter (!isParagraphProps ·)).map flatten := by
    refine flattenAll_of_no_paragraph fun child member => ?_
    exact isParagraph_of_not_holds (bare child (List.mem_filter.1 member).1)
  refine ⟨_, name, attrs, _, flattenNode_paragraph paragraph attrs children, paragraph, ?_, ?_⟩
  · rw [lifted]
    have ofFilter : ∀ {keep : Node → Bool}, ∀ child ∈ children.filter keep,
        child.holdsParagraph = false := fun child member => bare child (List.mem_filter.1 member).1
    refine List.forall_mem_append.2 ⟨List.forall_mem_map.2 fun child member => ?_, ofFilter⟩
    rw [holdsParagraph_flatten]
    exact ofFilter child member
  · rw [lifted, AllInline, List.forall_mem_map]
    simp only [isBlockLevel_flatten, List.mem_filter, and_imp]
    constructor
    · intro inline child member
      cases props : child.isParagraphProps with
      | false => exact inline child member (by simp [props])
      | true => exact isBlockLevel_of_isParagraphProps props
    · exact fun inline child member _ => inline child member

/-- Which mark comes first in the flat form can be told from the siblings. -/
theorem firstGroupMarked_flattenAll_iff {nodes : List Node}
    (apart : ∀ node ∈ nodes, ParagraphsApart node) :
    firstGroupMarked (flattenAll nodes) = true ↔ LeadsToMark nodes := by
  induction nodes with
  | nil =>
      constructor
      · intro marked
        cases marked
      · rintro ⟨between, paragraph, right, whole, _⟩
        exact absurd whole (List.append_ne_nil_of_right_ne_nil _ (List.cons_ne_nil _ _)).symm
  | cons node rest ih =>
      rw [List.forall_mem_cons] at apart
      rw [flattenAll, leadsToMark_cons]
      cases isParagraph : node.isParagraph with
      | true =>
          rcases exists_flattenNode isParagraph apart.1 with
            ⟨content, name, attrs, props, flat, kind, bare, inline⟩
          have noParagraph : ∀ inner ∈ content, inner.isParagraph = false := fun inner member =>
            isParagraph_of_not_holds (bare inner (List.mem_append_left _ member))
          rw [flat, List.append_assoc, List.singleton_append,
            firstGroupMarked_append_of_no_paragraph noParagraph, firstGroupMarked_mark kind,
            isBlockLevel_of_isParagraph isParagraph, inline]
          simp
      | false =>
          rw [flattenNode_of_not_paragraph isParagraph, List.singleton_append]
          cases block : node.isBlockLevel with
          | true =>
              rw [firstGroupMarked_cons_block (by rw [isBlockLevel_flatten, block]),
                Node.isParagraph, kind_flatten, ← Node.isParagraph, isParagraph]
              simp
          | false =>
              rw [firstGroupMarked_cons_inline (by rw [isBlockLevel_flatten, block]), ih apart.2]
              simp

/-! ## Regrouping -/

/-- A sibling that is regrouped together with those behind it nests no paragraphs. -/
def StaysApart (node : Node) (rest : List Node) : Prop :=
  if node.isParagraph then ParagraphsApart node
  else ParagraphsApart node.regroup ∧
    (node.isBlockLevel = false → firstGroupMarked rest = true → node.holdsParagraph = false)

theorem paragraphsApart_regroupAll_cons {node : Node} {rest : List Node} :
    (∀ result ∈ regroupAll (node :: rest), ParagraphsApart result) ↔
      StaysApart node rest ∧ ∀ result ∈ regroupAll rest, ParagraphsApart result := by
  cases paragraph : node.isParagraph with
  | true =>
      rcases exists_of_isParagraph paragraph with ⟨name, attrs, props, rfl, kind⟩
      rw [regroupAll_cons_paragraph kind, List.forall_mem_cons, StaysApart, if_pos paragraph]
  | false =>
      rw [StaysApart, if_neg (by simp [paragraph])]
      by_cases taken : node.isBlockLevel = false ∧ firstGroupMarked rest = true
      · rcases taken with ⟨inline, marked⟩
        obtain ⟨left, name, attrs, props, others, rfl, leftInline, kind⟩ :=
          exists_of_firstGroupMarked marked
        have longer : AllInline (node :: left) := List.forall_mem_cons.2 ⟨inline, leftInline⟩
        rw [← List.cons_append, regroupAll_paragraph longer kind,
          regroupAll_paragraph leftInline kind]
        simp only [List.forall_mem_cons, paragraphsApart_paragraph kind, List.forall_mem_append,
          List.map_cons, holdsParagraph_regroup, inline, marked, forall_const]
        constructor
        · rintro ⟨⟨props, here, left⟩, rest⟩
          have bare : node.regroup.holdsParagraph = false := by rwa [holdsParagraph_regroup]
          exact ⟨⟨paragraphsApart_of_not_holds bare, here⟩, ⟨props, left⟩, rest⟩
        · rintro ⟨⟨_, here⟩, ⟨props, left⟩, rest⟩
          exact ⟨⟨props, here, left⟩, rest⟩
      · have alone : node.isBlockLevel = true ∨ firstGroupMarked rest = false := by
          cases block : node.isBlockLevel with
          | true => exact .inl rfl
          | false => exact .inr (Bool.eq_false_iff.2 fun marked => taken ⟨block, marked⟩)
        have free : node.isBlockLevel = false → firstGroupMarked rest = true →
            node.holdsParagraph = false := fun inline marked => absurd ⟨inline, marked⟩ taken
        rw [regroupAll_cons_unmarked paragraph alone, List.forall_mem_cons, and_iff_left free]

/-- Siblings without paragraphs do not matter. -/
theorem paragraphsApart_regroupAll_append {left rest : List Node}
    (bare : ∀ node ∈ left, node.holdsParagraph = false) :
    (∀ result ∈ regroupAll (left ++ rest), ParagraphsApart result) ↔
      ∀ result ∈ regroupAll rest, ParagraphsApart result := by
  induction left with
  | nil => rfl
  | cons node others ih =>
      rcases List.forall_mem_cons.1 bare with ⟨here, later⟩
      have image : node.regroup.holdsParagraph = false := by rwa [holdsParagraph_regroup]
      have stays : StaysApart node (others ++ rest) := by
        rw [StaysApart, if_neg (by simp [isParagraph_of_not_holds here])]
        exact ⟨paragraphsApart_of_not_holds image, fun _ _ => here⟩
      rw [List.cons_append, paragraphsApart_regroupAll_cons, and_iff_right stays, ih later]

/-- The round trip of siblings, given that of each of them. -/
theorem paragraphsApart_regroupAll_flattenAll {nodes : List Node}
    (apart : ∀ node ∈ nodes, ParagraphsApart node) :
    (∀ result ∈ regroupAll (flattenAll nodes), ParagraphsApart result) ↔
      ¬ TrapsParagraph nodes ∧
        ∀ node ∈ nodes, node.isParagraph = false → ParagraphsApart node.flatten.regroup := by
  induction nodes with
  | nil =>
      refine iff_of_true (List.forall_mem_nil _) ⟨?_, List.forall_mem_nil _⟩
      rintro ⟨left, wrapper, right, whole, _⟩
      exact absurd whole (List.append_ne_nil_of_right_ne_nil _ (List.cons_ne_nil _ _)).symm
  | cons node rest ih =>
      rw [List.forall_mem_cons] at apart
      rw [flattenAll, trapsParagraph_cons, List.forall_mem_cons]
      cases isParagraph : node.isParagraph with
      | true =>
          rcases exists_flattenNode isParagraph apart.1 with
            ⟨content, name, attrs, props, flat, kind, bare, _⟩
          rcases List.forall_mem_append.1 bare with ⟨contentBare, propsBare⟩
          have mark : StaysApart (element name attrs props) (flattenAll rest) := by
            rw [StaysApart, if_pos (by simp [Node.isParagraph, kind])]
            exact (paragraphsApart_paragraph kind).2 propsBare
          rw [flat, List.append_assoc, List.singleton_append,
            paragraphsApart_regroupAll_append contentBare, paragraphsApart_regroupAll_cons,
            and_iff_right mark, ih apart.2, isBlockLevel_of_isParagraph isParagraph]
          simp
      | false =>
          have other : node.flatten.isParagraph = false := by
            rw [Node.isParagraph, kind_flatten, ← Node.isParagraph, isParagraph]
          rw [flattenNode_of_not_paragraph isParagraph, List.singleton_append,
            paragraphsApart_regroupAll_cons, StaysApart, if_neg (by simp [other]), ih apart.2,
            firstGroupMarked_flattenAll_iff apart.2, isBlockLevel_flatten, holdsParagraph_flatten]
          cases node.holdsParagraph <;> simp [and_assoc, and_left_comm]

/-! ## Documents -/

/-- The round trip through the flat form puts a paragraph into another just where a wrapper that is
not block-level holds a paragraph and a paragraph of inline content follows, with nothing
block-level in between.  As in every `Node`, nothing is below the texts and comments of `root`. -/
theorem paragraphsApart_regroup_flatten_iff {root : Node} (apart : root.ParagraphsApart) :
    root.flatten.regroup.ParagraphsApart ↔
      ∀ outer ∈ root.selfAndDescendants, ¬ TrapsParagraph outer.children := by
  induction root using treeInduction with
  | element name attrs children ih =>
      rw [flatten_element, regroup_element]
      by_cases paragraph : name.kind = .paragraph
      · have bare := (paragraphsApart_paragraph paragraph).1 apart
        refine iff_of_true ?_ fun outer => not_trapsParagraph_of_bare bare
        rw [paragraphsApart_paragraph paragraph]
        have none : (regroupAll (flattenAll children)).any holdsParagraph = false := by
          rw [any_holdsParagraph_regroupAll fun child _ => holdsParagraph_regroup child,
            flattenAll_eq_flatMap, List.any_flatMap,
            any_congr_of_mem fun child _ => any_holdsParagraph_flattenNode child, List.any_eq_false]
          exact fun child member => Bool.eq_false_iff.1 (bare child member)
        rw [List.any_eq_false] at none
        exact fun child member => Bool.eq_false_iff.2 (none child member)
      · have each := (paragraphsApart_container paragraph).1 apart
        rw [paragraphsApart_container paragraph, paragraphsApart_regroupAll_flattenAll each]
        constructor
        · rintro ⟨top, below⟩ outer member
          rcases mem_selfAndDescendants_element.1 member with rfl | ⟨child, among, inside⟩
          · exact top
          · cases isParagraph : child.isParagraph with
            | false =>
                have stays := below child among isParagraph
                exact (ih child among (each child among)).1 stays outer inside
            | true =>
                rcases exists_of_isParagraph isParagraph with ⟨name, attrs, content, rfl, kind⟩
                have bare : ∀ inner ∈ (element name attrs content).children,
                    inner.holdsParagraph = false :=
                  (paragraphsApart_paragraph kind).1 (each _ among)
                exact not_trapsParagraph_of_bare bare inside
        · intro free
          refine ⟨free _ (self_mem_selfAndDescendants _), fun child member _ => ?_⟩
          refine (ih child member (each child member)).2 fun outer below => ?_
          exact free outer (mem_selfAndDescendants_element.2 (.inr ⟨child, member, below⟩))
  | text | comment =>
      refine iff_of_true (fun outer member => ?_) fun outer member => ?_
      · rw [mem_selfAndDescendants_of_childless rfl] at member
        rw [member]
        nofun
      · exact not_trapsParagraph_of_bare (List.forall_mem_nil _) member

open Bookmark in
/-- A wrapper with a paragraph in it, in front of other siblings. -/
def wrapperBefore (siblings : List Node) : Node :=
  wordElement "body" []
    (wordElement "customXml" [] [wordElement "p" [] [boldRun "one"]] :: siblings)

open Bookmark in
/-- A table keeps the wrapper away from the paragraph behind it. -/
theorem not_trapsParagraph_wrapperBefore :
    (wrapperBefore [wordElement "tbl" [] [], wordElement "p" [] []]).ParagraphsApart ∧
      ∀ outer ∈ (wrapperBefore [wordElement "tbl" [] [], wordElement "p" [] []]).selfAndDescendants,
        ¬ TrapsParagraph outer.children := by
  have apart :
      (wrapperBefore [wordElement "tbl" [] [], wordElement "p" [] []]).ParagraphsApart := by
    decide
  exact ⟨apart, (paragraphsApart_regroup_flatten_iff apart).1 (by decide)⟩

open Bookmark in
/-- Without anything in between the wrapper becomes part of the paragraph. -/
theorem not_paragraphsApart_wrapperBefore :
    ¬ ∀ root : Node, root.ParagraphsApart → root.flatten.regroup.ParagraphsApart := by
  intro always
  have apart : (wrapperBefore [wordElement "p" [] [boldRun "two"]]).ParagraphsApart := by decide
  exact absurd (always _ apart) (by decide)

end TemplateFill.Node
