import TemplateFill.Proofs.Bookmark.Filling
import TemplateFill.Proofs.Bookmark.RoundTrip

/-!
# Parents and children around a site

The round trip through the flat form moves nodes into paragraphs only.  When what is between two
markers is replaced, the nodes in front of them may lose the mark that has taken them in, and then
they stay with the parent of the markers.  Nothing else gets another parent.
-/

namespace TemplateFill

namespace Node

variable {allowed : Kind → Kind → Prop} {outer : Kind}

/-! ## There and back -/

/-- All paragraphs that are flattened at and below siblings have inline content. -/
def InlineParagraphs (nodes : List Node) : Prop :=
  ∀ inner ∈ unsealedOfAll nodes, inner.isParagraph = true → AllInline inner.children

instance : DecidablePred InlineParagraphs := fun nodes =>
  inferInstanceAs (Decidable (∀ inner ∈ unsealedOfAll nodes, inner.isParagraph = true →
    ∀ child ∈ inner.children, child.isBlockLevel = false))

theorem InlineParagraphs.sibling {nodes : List Node} {node : Node}
    (inline : InlineParagraphs nodes) (member : node ∈ nodes) : InlineParagraphs [node] := by
  intro inner below
  rcases mem_unsealedOfAll.1 below with ⟨sibling, among, inside⟩
  rw [List.mem_singleton.1 among] at inside
  exact inline inner (mem_unsealedOfAll.2 ⟨node, member, inside⟩)

section Children

variable {name : QName} {attrs : List Attr} {children : List Node}

theorem InlineParagraphs.content (inline : InlineParagraphs [element name attrs children])
    (paragraph : name.kind = .paragraph) :
    AllInline children ∧ InlineParagraphs (children.filter (!·.isParagraphProps)) := by
  rw [InlineParagraphs, unsealedOfAll, unsealedOfAll, List.append_nil, unsealed, if_pos paragraph,
    unsealedContent_eq, List.forall_mem_cons] at inline
  exact ⟨inline.1 (by simp [isParagraph, paragraph]), inline.2⟩

theorem InlineParagraphs.below (inline : InlineParagraphs [element name attrs children])
    (other : name.kind ≠ .paragraph) : InlineParagraphs children := by
  rw [InlineParagraphs, unsealedOfAll, unsealedOfAll, List.append_nil, unsealed, if_neg other,
    List.forall_mem_cons] at inline
  exact inline.2

end Children

/-- Siblings keep allowed parents in the round trip, given what becomes of each of them. -/
private theorem edgesBelow_regroupAll_flattenAll (permits : PermitsParagraphs allowed)
    {nodes : List Node} (edges : EdgesBelow allowed outer nodes) (inline : InlineParagraphs nodes)
    (each : ∀ node ∈ nodes, ∀ flat ∈ flattenNode node, flat.isParagraph = false →
      EveryEdge allowed flat.regroup) :
    EdgesBelow allowed outer (regroupAll (flattenAll nodes)) := by
  induction nodes with
  | nil => exact List.forall_mem_nil _
  | cons node rest ih =>
      have restInline : InlineParagraphs rest := fun inner member =>
        inline inner (List.mem_append_right _ member)
      rw [List.forall_mem_cons] at each
      rw [edgesBelow_cons] at edges
      have later := ih edges.2 restInline each.2
      have here := inline.sibling List.mem_cons_self
      rw [flattenAll]
      cases isParagraph : node.isParagraph with
      | false =>
          have other : node.flatten.isParagraph = false := by
            simpa [Node.isParagraph] using isParagraph
          have image := each.1 node.flatten
          rw [flattenNode_of_not_paragraph isParagraph] at image ⊢
          rw [List.singleton_append, edgesBelow_regroupAll_cons permits, LandsAllowed,
            if_neg (by simp [other]), kind_flatten, landing]
          refine ⟨⟨?_, image (List.mem_singleton_self _) other⟩, later⟩
          split
          · exact permits.inside _
          · exact edges.1.1
      | true =>
          rcases exists_of_isParagraph isParagraph with ⟨name, attrs, children, rfl, paragraph⟩
          rcases here.content paragraph with ⟨childrenInline, _⟩
          have contentInline : AllInline (children.filter (!·.isParagraphProps)) :=
            fun child member => childrenInline child (List.mem_filter.1 member).1
          have flatInline : AllInline (flattenAll (children.filter (!·.isParagraphProps))) := by
            rw [flattenAll_of_inline contentInline]
            exact allInline_map_flatten contentInline
          have below := everyEdge_element.1 edges.1.2
          have images := each.1
          rw [flattenNode_paragraph paragraph] at images ⊢
          rw [List.append_assoc, List.singleton_append, regroupAll_paragraph flatInline paragraph,
            edgesBelow_cons, kind_element, paragraph, everyEdge_element, edgesBelow_append]
          refine ⟨⟨permits.below _, ?_, ?_⟩, later⟩
          · exact fun child member => below child (List.mem_filter.1 member).1
          · intro result member
            rcases List.mem_map.1 member with ⟨flat, among, rfl⟩
            rw [paragraph]
            refine ⟨permits.inside _, ?_⟩
            exact images flat (List.mem_append_left _ among)
              (not_isParagraph_of_inline (flatInline flat among))

private theorem everyEdge_regroup_of_flattenNode (permits : PermitsParagraphs allowed) {node : Node}
    (edges : EveryEdge allowed node) (inline : InlineParagraphs [node]) :
    ∀ flat ∈ flattenNode node, flat.isParagraph = false → EveryEdge allowed flat.regroup := by
  intro flat member
  revert edges inline
  refine flattenNode_induction ?content ?mark ?container ?leaf member
  case content =>
    intro name attrs children child flat paragraph among other _ inner edges inline
    rcases inline.content paragraph with ⟨_, contentInline⟩
    refine inner (everyEdge_element.1 edges child among).2 (contentInline.sibling ?_)
    exact List.mem_filter.2 ⟨among, by simpa using other⟩
  case mark =>
    intro name attrs children paragraph _ _ other
    rw [isParagraph, kind_element, paragraph] at other
    cases other
  case container =>
    intro name attrs children paragraph inner edges inline _
    have below := everyEdge_element.1 edges
    have childrenInline := inline.below paragraph
    rw [regroup_element, everyEdge_element]
    refine edgesBelow_regroupAll_flattenAll permits below childrenInline ?_
    intro child among flat isFlat
    exact inner child among flat isFlat (below child among).2 (childrenInline.sibling among)
  case leaf =>
    intro node noElement edges _ _
    cases node with
    | element => cases noElement
    | text | comment => exact edges

/-- A document whose paragraphs have inline content keeps allowed parents in the round trip. -/
theorem everyEdge_regroup_flatten (permits : PermitsParagraphs allowed) {root : Node}
    (edges : EveryEdge allowed root) (inline : InlineParagraphs root.children) :
    EveryEdge allowed root.flatten.regroup := by
  cases root with
  | element name attrs children =>
      have below := everyEdge_element.1 edges
      rw [flatten_element, regroup_element, everyEdge_element]
      refine edgesBelow_regroupAll_flattenAll permits below inline fun child among => ?_
      exact everyEdge_regroup_of_flattenNode permits (below child among).2 (inline.sibling among)
  | text | comment => exact edges

/-! ## Siblings in front of a site -/

/-- Behind siblings with a block-level node among them it does not matter what follows. -/
theorem firstGroupMarked_append_of_block {left : List Node} (block : ¬ AllInline left)
    (rest rest' : List Node) :
    firstGroupMarked (left ++ rest) = firstGroupMarked (left ++ rest') := by
  cases found : left.find? (·.isBlockLevel) with
  | none =>
      refine absurd (fun node member => ?_) block
      simpa using List.find?_eq_none.1 found node member
  | some last =>
      rw [firstGroupMarked, firstGroupMarked, List.find?_append, List.find?_append, found,
        Option.some_or, Option.some_or]

/-- A node whose group loses its mark stays with its parent, if nothing closes a group before. -/
private theorem LandsAllowed.unmarked_iff {node : Node} {left rest rest' : List Node}
    (lands : LandsAllowed allowed outer node (left ++ rest))
    (unmarked : firstGroupMarked rest' = false) :
    LandsAllowed allowed outer node (left ++ rest') ↔
      (AllInline (node :: left) → allowed outer node.kind) := by
  rw [LandsAllowed] at lands ⊢
  cases paragraph : node.isParagraph with
  | true =>
      rw [if_pos paragraph] at lands
      rw [if_pos rfl]
      refine iff_of_true lands fun inline => ?_
      have block := isBlockLevel_of_isParagraph paragraph
      rw [inline node List.mem_cons_self] at block
      cases block
  | false =>
      rw [if_neg (by simp [paragraph])] at lands
      rw [if_neg Bool.false_ne_true, and_iff_left lands.2]
      by_cases inline : AllInline (node :: left)
      · rcases List.forall_mem_cons.1 inline with ⟨_, leftInline⟩
        have alone : firstGroupMarked (left ++ rest') = false := by
          rw [firstGroupMarked_append_inline leftInline, unmarked]
        rw [landing_unmarked (.inr alone)]
        exact ⟨fun fits _ => fits, fun fits => fits inline⟩
      · refine iff_of_true ?_ fun none => absurd none inline
        have same : landing outer node (left ++ rest') = landing outer node (left ++ rest) := by
          cases block : node.isBlockLevel with
          | true => rw [landing_unmarked (.inl block), landing_unmarked (.inl block)]
          | false =>
              have leftBlock : ¬ AllInline left := fun leftInline =>
                inline (List.forall_mem_cons.2 ⟨block, leftInline⟩)
              rw [landing, landing, firstGroupMarked_append_of_block leftBlock rest' rest]
        rw [same]
        exact lands.1

/-- Where the first group behind siblings has no mark, those that are part of it have to be allowed
where they are. -/
theorem edgesBelow_regroupAll_append_iff (permits : PermitsParagraphs allowed)
    {left rest rest' : List Node}
    (edges : EdgesBelow allowed outer (regroupAll (left ++ rest)))
    (edges' : EdgesBelow allowed outer (regroupAll rest'))
    (unmarked : firstGroupMarked rest' = false) :
    EdgesBelow allowed outer (regroupAll (left ++ rest')) ↔
      ∀ before node after, left = before ++ node :: after → AllInline (node :: after) →
        allowed outer node.kind := by
  induction left with
  | nil =>
      refine iff_of_true edges' fun before node after none => ?_
      exact absurd none (List.append_ne_nil_of_right_ne_nil _ (List.cons_ne_nil _ _)).symm
  | cons node others ih =>
      rw [List.cons_append, edgesBelow_regroupAll_cons permits] at edges
      rw [List.cons_append, edgesBelow_regroupAll_cons permits, edges.1.unmarked_iff unmarked,
        ih edges.2]
      constructor
      · rintro ⟨here, later⟩ before inner after whole inline
        cases before with
        | nil =>
            cases whole
            exact here inline
        | cons first before =>
            cases whole
            exact later before inner after rfl inline
      · intro fits
        refine ⟨fits [] node others rfl, fun before inner after whole inline => ?_⟩
        rw [whole] at fits
        exact fits (node :: before) inner after rfl inline

/-! ## New runs -/

/-- Only placeholders and runs may be out of place. -/
def AllowsOthers (allowed : Kind → Kind → Prop) : Prop :=
  ∀ outer inner, inner ≠ .placeholder → inner ≠ .run → allowed outer inner

/-- A run made for a text is allowed where its formatting is. -/
theorem everyEdge_textRun {spell : Term → QName} {text : String} (spells : SpellsWords spell)
    (inRun : ∀ inner, allowed .run inner) (inText : ∀ inner, allowed .runText inner)
    {formatting : List Node} (edges : ∀ node ∈ formatting, EveryEdge allowed node) :
    EveryEdge allowed (textRun spell formatting text) := by
  rw [textRun, everyEdge_element, spells.run, edgesBelow_append]
  refine ⟨fun node member => ⟨inRun _, edges node member⟩, ?_⟩
  refine List.forall_mem_singleton.2 ⟨inRun _, ?_⟩
  obtain ⟨attrs, content, same, isText⟩ := exists_runTextElement spell text
  rw [same, everyEdge_element, spells.runText]
  rcases isText with ⟨rfl, _⟩ | rfl
  · exact List.forall_mem_nil _
  · exact List.forall_mem_singleton.2 ⟨inText _, everyEdge_text⟩

/-- The formatting of a range is allowed anywhere. -/
theorem edgesBelow_formatting (permits : PermitsParagraphs allowed)
    (others : AllowsOthers allowed) {nodes range : List Node}
    (edges : EdgesBelow allowed outer (regroupAll nodes)) (subset : ∀ node ∈ range, node ∈ nodes)
    (inner : Kind) :
    EdgesBelow allowed inner (regroupAll (firstFormatting? range).toList) := by
  have each : ∀ node ∈ (firstFormatting? range).toList, node.isParagraph = false ∧
      (∀ outer, allowed outer node.kind) ∧ EveryEdge allowed node.regroup := by
    intro formatting member
    obtain ⟨kind, run, among, isRun, isChild⟩ :=
      Bookmark.mem_of_firstFormatting (Option.mem_toList.1 member)
    have inRun := everyEdge_regroup_of_mem permits edges (subset run among)
      (by simp [isParagraph, isRun])
    refine ⟨by simp [isParagraph, kind], fun outer => ?_, ?_⟩
    · exact others outer _ (by simp [kind]) (by simp [kind])
    · cases run with
      | element name attrs children =>
          rw [regroup_element, everyEdge_element] at inRun
          exact everyEdge_regroup_of_mem permits inRun isChild (by simp [isParagraph, kind])
      | text | comment => cases isChild
  rw [← List.append_nil (Option.toList _)]
  exact edgesBelow_regroupAll_append permits each (List.forall_mem_nil _)

end Node

namespace Bookmark

open Node

variable {allowed : Kind → Kind → Prop} {site : Site}

/-! ## At a site -/

/-- What may be put behind the start marker of a site. -/
structure Site.Refills (allowed : Kind → Kind → Prop) (site : Site) (fresh : Node)
    (kept : List Node) : Prop where
  fresh_inline : fresh.isBlockLevel = false
  fresh_edges : EveryEdge allowed fresh.regroup
  kept_inside : ∀ node ∈ kept, node ∈ site.inside
  kept_anywhere : ∀ node ∈ kept, node.isParagraph = false ∧ ∀ outer, allowed outer node.kind

section Refills

variable (permits : PermitsParagraphs allowed) (others : AllowsOthers allowed)
  (free : ∀ node ∈ site.inside, node.kind ≠ .placeholder)
  (edges : EveryEdge allowed (site.holding site.inside).regroup)

include others free in
private theorem Site.survivors_anywhere :
    ∀ node ∈ site.inside.filter outlivesReplacement,
      node.isParagraph = false ∧ ∀ outer, allowed outer node.kind := by
  intro node member
  rcases List.mem_filter.1 member with ⟨among, outlives⟩
  rw [outlivesReplacement] at outlives
  constructor
  · rw [isParagraph]
    cases kind : node.kind <;> simp_all
  · intro outer
    apply others outer node.kind (free node among)
    intro run
    rw [run] at outlives
    cases outlives

include permits others free edges

/-- A site can be refilled with a placeholder. -/
theorem Site.refills_placeholder :
    site.Refills allowed (placeholderFor site.inside)
      (site.inside.filter outlivesReplacement) := by
  rw [Site.holding, regroup_element, everyEdge_element] at edges
  constructor
  · rfl
  · rw [placeholderFor, regroup_element, everyEdge_element]
    exact edgesBelow_formatting permits others edges (by simp_all [Site.siblings]) _
  · exact fun node member => (List.mem_filter.1 member).1
  · exact Site.survivors_anywhere others free

/-- A site can be refilled with a run. -/
theorem Site.refills_run {spell : Term → QName} (spells : SpellsWords spell) (text : String)
    (inRun : ∀ inner, allowed .run inner) (inText : ∀ inner, allowed .runText inner) :
    site.Refills allowed (textRun spell (firstFormatting? site.inside).toList text)
      (site.inside.filter outlivesReplacement) := by
  rw [Site.holding, regroup_element, everyEdge_element] at edges
  constructor
  · rw [isBlockLevel, textRun, kind_element, spells.run]
  · have formatting := edgesBelow_formatting permits others edges
      (by simp_all [Site.siblings] : ∀ node ∈ site.inside, node ∈ site.siblings site.inside) .run
    rw [regroup_textRun spells]
    exact everyEdge_textRun spells inRun inText fun node member => (formatting node member).2
  · exact fun node member => (List.mem_filter.1 member).1
  · exact Site.survivors_anywhere others free

end Refills

section Refilled

variable {fresh : Node} {kept : List Node} (permits : PermitsParagraphs allowed)
  (others : AllowsOthers allowed) (starts : site.start.kind = .bookmarkStart)
  (refills : site.Refills allowed fresh kept)
  (edges : EveryEdge allowed (site.holding site.inside).regroup)

include permits refills edges

/-- What follows the new node stays as it should be. -/
private theorem Site.Refills.edgesBelow_behind :
    EdgesBelow allowed site.name.kind (regroupAll (kept ++ site.stop :: site.right)) := by
  rw [Site.holding, Site.siblings, regroup_element, everyEdge_element] at edges
  apply edgesBelow_regroupAll_append permits
  · intro node member
    obtain ⟨other, anywhere⟩ := refills.kept_anywhere node member
    have among := refills.kept_inside node member
    exact ⟨other, anywhere, everyEdge_regroup_of_mem permits edges (by simp [among]) other⟩
  · rw [← List.cons_append, ← List.append_assoc] at edges
    exact edgesBelow_regroupAll_of_append permits edges

include others starts

/-- From the start marker on only the new node has to be allowed, where regrouping puts it. -/
private theorem Site.Refills.edgesBelow_from_start :
    EdgesBelow allowed site.name.kind
        (regroupAll (site.start :: fresh :: (kept ++ site.stop :: site.right))) ↔
      allowed (landing site.name.kind fresh (kept ++ site.stop :: site.right)) fresh.kind := by
  have behind := refills.edgesBelow_behind permits edges
  rw [Site.holding, Site.siblings, regroup_element, everyEdge_element] at edges
  have startOther : site.start.isParagraph = false :=
    not_isParagraph_of_inline (by rw [isBlockLevel, starts])
  have freshOther := not_isParagraph_of_inline refills.fresh_inline
  have startEdges : EveryEdge allowed site.start.regroup :=
    everyEdge_regroup_of_mem permits edges (by simp) startOther
  rw [edgesBelow_regroupAll_cons permits, LandsAllowed, if_neg (by simp [startOther]), starts,
    and_iff_right ⟨others _ _ (by decide) (by decide), startEdges⟩,
    edgesBelow_regroupAll_cons permits, LandsAllowed, if_neg (by simp [freshOther]),
    and_iff_left refills.fresh_edges, and_iff_left behind]

/-- With something else behind its start marker a site stays as it should be if a mark takes in what
stands there.  If none does, the new node and the inline siblings right in front of the markers have
to be allowed below the parent of the markers. -/
theorem Site.Refills.everyEdge_iff :
    EveryEdge allowed (site.holding (fresh :: kept)).regroup ↔
      firstGroupMarked (kept ++ site.stop :: site.right) = true ∨
        allowed site.name.kind fresh.kind ∧
          ∀ before node after, site.left = before ++ node :: after → AllInline (node :: after) →
            allowed site.name.kind node.kind := by
  have front := refills.edgesBelow_from_start permits others starts edges
  rw [Site.holding, Site.siblings, regroup_element, everyEdge_element] at edges
  have startInline : site.start.isBlockLevel = false := by
    rw [isBlockLevel, starts]
  have samePrefix : firstGroupMarked (site.start :: fresh :: (kept ++ site.stop :: site.right)) =
      firstGroupMarked (kept ++ site.stop :: site.right) := by
    rw [firstGroupMarked_cons_inline startInline, firstGroupMarked_cons_inline refills.fresh_inline]
  rw [Site.holding, Site.siblings, List.cons_append, regroup_element, everyEdge_element]
  cases marked : firstGroupMarked (kept ++ site.stop :: site.right) with
  | true =>
      rw [landing_marked refills.fresh_inline marked] at front
      refine iff_of_true ?_ (.inl rfl)
      refine edgesBelow_regroupAll_mono permits (fun _ => ?_) (front.2 (permits.inside _)) edges
      rw [samePrefix, marked]
  | false =>
      rw [landing_unmarked (.inr marked)] at front
      have unmarked := samePrefix.trans marked
      rw [← front]
      constructor
      · intro whole
        have tail := edgesBelow_regroupAll_of_append permits whole
        have left := (edgesBelow_regroupAll_append_iff permits edges tail unmarked).1 whole
        exact .inr ⟨tail, left⟩
      · rintro (none | ⟨tail, left⟩)
        · cases none
        · exact (edgesBelow_regroupAll_append_iff permits edges tail unmarked).2 left

end Refilled

/-- A document is as it should be with something else at a site exactly if the site is. -/
theorem everyEdge_regroup_replaceAt_iff {root target node : Node} {path : Path}
    (permits : PermitsParagraphs allowed) (opens : root.Reaches OpenStep path target)
    (keeps : node.label = target.label) (edges : EveryEdge allowed root.regroup) :
    EveryEdge allowed (root.replaceAt path node).regroup ↔ EveryEdge allowed node.regroup := by
  constructor
  · intro whole
    have way := opens.replaceAt keeps fun _ _ _ same step => step.of_label_eq same
    exact way.everyEdge_regroup permits whole
  · exact fun inner => opens.everyEdge_regroup_replaceAt permits keeps (fun _ => inner) edges

end Bookmark

end TemplateFill
