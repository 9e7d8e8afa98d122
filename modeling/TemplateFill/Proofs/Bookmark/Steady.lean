import TemplateFill.Proofs.Bookmark.Parent
import TemplateFill.Proofs.Bookmark.Renewal
import TemplateFill.Proofs.Bookmark.Splicing
import TemplateFill.Proofs.Markup.Gap

/-!
# Documents that stay in shape

A steady document comes back from its flat form, has its properties in paragraphs and its runs
outside bodies.  A bookmark that is ready in it is filled by putting a run between its markers in
the flat form, and the result is steady again.  So one substitution can follow another.
-/

namespace TemplateFill

namespace Node

/-! ## Markers and paragraph properties -/

/-- The label of a node that is no marker. -/
def NoMarker (label : Label) : Prop := label.kind ≠ .bookmarkStart ∧ label.kind ≠ .bookmarkEnd

theorem markersOutsideProps_element {name : QName} {attrs : List Attr} {children : List Node} :
    MarkersOutsideProps (.element name attrs children) ↔
      (name.kind = .paragraphProps → ∀ child ∈ children, EveryLabel NoMarker child) ∧
        ∀ child ∈ children, MarkersOutsideProps child := by
  constructor
  · intro outside
    constructor
    · intro isProps child member inner below
      exact outside _ (self_mem_selfAndDescendants _) (by simp [isParagraphProps, isProps]) inner
        (mem_descendantsOfAll.2 ⟨child, member, below⟩)
    · intro child member props below
      exact outside props (mem_selfAndDescendants_element.2 (.inr ⟨child, member, below⟩))
  · rintro ⟨top, below⟩ props member isProps inner within
    rcases mem_selfAndDescendants_element.1 member with rfl | ⟨child, among, deeper⟩
    · rcases mem_descendantsOfAll.1 within with ⟨child, among, deeper⟩
      exact top (by simpa [isParagraphProps] using isProps) child among inner deeper
    · exact below child among props deeper isProps inner within

private theorem markersOutsideProps_flattenNode {node : Node} (outside : MarkersOutsideProps node) :
    ∀ flat ∈ flattenNode node, MarkersOutsideProps flat := by
  intro flat member
  revert outside
  refine flattenNode_induction ?content ?mark ?container ?leaf member
  case content =>
    intro name attrs children child flat _ among _ _ inner outside
    exact inner ((markersOutsideProps_element.1 outside).2 child among)
  case mark =>
    intro name attrs children paragraph outside
    refine markersOutsideProps_element.2 ⟨fun isProps => ?_, fun child among => ?_⟩
    · rw [paragraph] at isProps
      cases isProps
    · exact (markersOutsideProps_element.1 outside).2 child (List.mem_filter.1 among).1
  case container =>
    intro name attrs children _ inner outside
    rcases markersOutsideProps_element.1 outside with ⟨top, below⟩
    refine markersOutsideProps_element.2 ⟨fun isProps => everyLabel_flattenAll (top isProps), ?_⟩
    intro flat among
    rcases mem_flattenAll.1 among with ⟨child, isChild, isFlat⟩
    exact inner child isChild flat isFlat (below child isChild)
  case leaf => exact fun _ outside => outside

/-- Flattening moves no marker into properties. -/
theorem MarkersOutsideProps.flatten {root : Node} (outside : MarkersOutsideProps root) :
    MarkersOutsideProps root.flatten := by
  cases root with
  | element name attrs children =>
      rcases markersOutsideProps_element.1 outside with ⟨top, below⟩
      refine markersOutsideProps_element.2 ⟨fun isProps => everyLabel_flattenAll (top isProps), ?_⟩
      intro flat member
      rcases mem_flattenAll.1 member with ⟨child, among, isFlat⟩
      exact markersOutsideProps_flattenNode (below child among) flat isFlat
  | text | comment => exact outside

private theorem markersOutsideProps_of_images {nodes : List Node}
    (outside : ∀ node ∈ nodes, MarkersOutsideProps node)
    (images : ∀ node ∈ nodes, MarkersOutsideProps node.regroup) :
    ∀ result ∈ regroupAll nodes, MarkersOutsideProps result := by
  intro result member
  cases regroupedFrom_of_mem member with
  | image among _ => exact images _ among
  | paragraph mark paragraph taken _ =>
      rcases markersOutsideProps_element.1 (outside _ mark) with ⟨_, below⟩
      refine markersOutsideProps_element.2 ⟨fun isProps => ?_, List.forall_mem_append.2 ⟨below, ?_⟩⟩
      · rw [paragraph] at isProps
        cases isProps
      · exact List.forall_mem_map.2 fun inner isTaken => images inner (taken inner isTaken)

/-- And neither does regrouping. -/
theorem MarkersOutsideProps.regroup {node : Node} (outside : MarkersOutsideProps node) :
    MarkersOutsideProps node.regroup := by
  induction node using treeInduction with
  | element name attrs children ih =>
      rcases markersOutsideProps_element.1 outside with ⟨top, below⟩
      rw [regroup_element]
      refine markersOutsideProps_element.2 ⟨fun isProps => everyLabel_regroupAll (top isProps), ?_⟩
      exact markersOutsideProps_of_images below fun child member =>
        ih child member (below child member)
  | text | comment => exact outside

/-! ## Filling in keeps runs where they may stand -/

section FillIn

open Kind (NeedsNoParagraph)

variable {spell : Term → QName} {text : String}

/-- A run may stand where a placeholder may. -/
theorem needsNoParagraph_run {outer : Kind} (fits : NeedsNoParagraph outer .placeholder) :
    NeedsNoParagraph outer .run := by
  constructor
  · intro _ same
    cases same
  · intro body
    subst body
    exact absurd rfl (fits.1 rfl)

theorem everyEdge_fillIn (spells : SpellsWords spell) {node : Node}
    (edges : EveryEdge NeedsNoParagraph node) :
    EveryEdge NeedsNoParagraph (fillIn spell text node) := by
  induction node using treeInduction with
  | element name attrs children ih =>
      rw [everyEdge_element] at edges
      by_cases placeholder : name.kind = .placeholder
      · rw [fillIn_placeholder placeholder]
        exact everyEdge_textRun spells (needsNoParagraph_of_not_holds rfl)
          (needsNoParagraph_of_not_holds rfl) fun child member => (edges child member).2
      · rw [fillIn_element placeholder, everyEdge_element]
        refine List.forall_mem_map.2 fun child member => ?_
        rcases edges child member with ⟨fits, below⟩
        refine ⟨?_, ih child member below⟩
        rw [kind_fillIn spells]
        split
        · rename_i isPlaceholder
          rw [isPlaceholder] at fits
          exact needsNoParagraph_run fits
        · exact fits
  | text | comment => exact edges

end FillIn

end Node

namespace Bookmark

open Node
open Kind (NeedsNoParagraph)

/-- A document that comes back from its flat form, in which no substitution has to make a
paragraph. -/
structure Steady (root : Node) : Prop where
  stable : root.flatten.regroup = root
  flat : ∀ child ∈ root.flatten.children, FlatSibling False child
  free : root.PlaceholderFree
  edges : EveryEdge NeedsNoParagraph root
  no_controls : ∀ child ∈ root.children,
    EveryLabel (fun label => label.kind ≠ .contentControl) child
  markers : MarkersOutsideProps root

/-! ## Bookmarks in gaps -/

/-- The markers of a bookmark and the siblings between them. -/
structure Span where
  start : Node
  inside : List Node
  stop : Node
  /-- The number of both markers. -/
  id : Int

namespace Span

/-- The markers with other siblings between them. -/
def around (span : Span) (middle : List Node) : List Node :=
  span.start :: (middle ++ [span.stop])

/-- The siblings from marker to marker. -/
def whole (span : Span) : List Node := span.around span.inside

/-- A span in a gap below a root with the name and the attributes of `top`. -/
def siteIn (span : Span) (gap : Gap) (top : QName × List Attr) : Site where
  name := (gap.parent top).1
  attrs := (gap.parent top).2
  left := gap.left
  start := span.start
  inside := span.inside
  stop := span.stop
  right := gap.right
  id := span.id

theorem holding_siteIn (span : Span) (gap : Gap) (top : QName × List Attr) (middle : List Node) :
    (span.siteIn gap top).holding middle = gap.holding top (span.around middle) := by
  simp [Site.holding, Site.siblings, siteIn, Gap.holding, around]

/-- What stands between the markers when the bookmark is filled. -/
def filling (span : Span) (spell : Term → QName) (text : String) : List Node :=
  textRun spell (firstFormatting? span.inside).toList text ::
    span.inside.filter outlivesReplacement

end Span

/-- The span of a site. -/
def Site.span (site : Site) : Span := ⟨site.start, site.inside, site.stop, site.id⟩

theorem Site.holding_eq (site : Site) :
    site.holding site.inside =
      .element site.name site.attrs (site.left ++ (site.span.whole ++ site.right)) := by
  simp [Site.holding, Site.siblings, span, Span.whole, Span.around]

/-- The label of a node around a bookmark that can be filled. -/
structure OpenLabel (label : Label) : Prop where
  no_paragraph : label.kind ≠ .paragraph
  no_props : label.kind ≠ .paragraphProps
  no_control : label.kind ≠ .contentControl
  no_container : Refuses (·.container?.isSome) label

/-- A bookmark that can be filled in the gap of a flat document. -/
structure Ready (bookmark : String) (top : QName × List Attr) (gap : Gap) (span : Span) :
    Prop where
  no_marker : gap.Preceding (Refuses (isMarkerOf bookmark span.id))
  no_stop : ∀ node ∈ span.start :: span.inside, EveryLabel (Refuses (·.endsBookmark span.id)) node
  starts : span.start.startsBookmark bookmark = true
  markerId : span.start.markerId? = some span.id
  ends : span.stop.endsBookmark span.id = true
  opens : gap.Above OpenLabel
  top_free : Refuses (·.container?.isSome) (.element top.1 top.2)
  marked : firstGroupMarked (span.stop :: gap.right) = true
  inline : AllInline (span.inside.filter outlivesReplacement)
  no_formula : landing (gap.parent top).1.kind span.start (span.inside ++ span.stop :: gap.right) ≠
    .math

section Ready

variable {root : Node} {bookmark : String} {top : QName × List Attr} {gap : Gap} {span : Span}

/-- A flat document with a span in a gap. -/
def Span.document (span : Span) (gap : Gap) (top : QName × List Attr) : Node :=
  .element top.1 top.2 (gap.fill span.whole)

theorem byLabel_container : ByLabel (·.container?.isSome) := by
  intro left right same
  simp only [container?, kind_eq_of_label_eq same]

/-- The way to a bookmark that is ready. -/
theorem Ready.reaches (ready : Ready bookmark top gap span) :
    (span.document gap top).Reaches
      (fun left child => PassesBy (isMarkerOf bookmark span.id) left child ∧ OpenLabel child.label)
      gap.path ((span.siteIn gap top).holding span.inside) := by
  have byLabel := byLabel_isMarkerOf bookmark span.id
  have way := gap.reaches_of_preceding ready.no_marker ready.opens top span.whole
  rw [span.holding_siteIn]
  apply way.mono
  rintro left child ⟨⟨before, entered⟩, opens⟩
  exact ⟨⟨byLabel.noneAmong_iff.2 before, byLabel.refuses_iff.1 entered⟩, opens⟩

theorem Ready.marks (ready : Ready bookmark top gap span) :
    (span.siteIn gap top).Marks (span.document gap top) bookmark gap.path := by
  have none := (byLabel_isMarkerOf bookmark span.id).noneAmong_iff.2 ready.no_marker.left
  constructor
  case reached => exact ready.reaches.mono fun _ _ step => passes_iff.2 step.1
  case no_start =>
    intro node member inner below
    exact (Bool.or_eq_false_iff.1 (none node member inner below)).1
  case no_stop =>
    apply noneAmong_append.2
    constructor
    · intro node member inner below
      exact (Bool.or_eq_false_iff.1 (none node member inner below)).2
    · exact (byLabel_endsBookmark span.id).noneAmong_iff.2 ready.no_stop
  case starts => exact ready.starts
  case markerId => exact ready.markerId
  case ends => exact ready.ends

theorem Ready.openSteps (ready : Ready bookmark top gap span) :
    (span.document gap top).Reaches OpenStep gap.path
      ((span.siteIn gap top).holding span.inside) := by
  apply ready.reaches.mono
  rintro left child ⟨_, opens⟩
  constructor
  · exact beq_eq_false_iff_ne.2 opens.no_paragraph
  · exact beq_eq_false_iff_ne.2 opens.no_props
  · exact opens.no_control

/-- A bookmark that is ready is located. -/
theorem Ready.locate_eq (ready : Ready bookmark top gap span) :
    locate (span.document gap top) bookmark = .ok ((span.siteIn gap top).pair gap.path) := by
  have alone : ∀ index, nearestContainer? (span.document gap top) (gap.path ++ [index]) = none := by
    intro index
    have none := ready.reaches.enclosing_of index
      (fun _ child step => byLabel_container.refuses_iff.1 step.2.no_container)
      (byLabel_container.refuses_iff.1 ready.top_free)
    rw [nearestContainer?, List.findSome?_eq_none_iff]
    intro outer member
    exact Option.not_isSome_iff_eq_none.1 (by simp [none outer (List.mem_reverse.1 member)])
  exact (locate_of_marks_iff ready.marks).2 ⟨alone _, alone _⟩

/-- In a steady document a bookmark that is ready is valid. -/
theorem Ready.valid (ready : Ready bookmark top gap span) (steady : Steady root)
    (flat : root.flatten = span.document gap top) : validate root false bookmark = .ok () := by
  have marks := flat ▸ ready.marks
  cases first : findStart? root bookmark with
  | none =>
      have lost := findPlaced?_flatten_eq_none (byLabel_startsBookmark bookmark) first
      rw [show root.flatten.findPlaced? (·.startsBookmark bookmark) = _ from
        findStart?_of_marks marks] at lost
      cases lost
  | some place =>
      obtain ⟨parent, isParent, kind⟩ := marks.parent_kind steady.stable steady.markers first
      have noFormula : parent.kind ≠ .math := by
        rw [kind]
        exact ready.no_formula
      have noControl : root.descendants.any (·.kind == .contentControl) = false := by
        rw [List.any_eq_false]
        intro inner member control
        cases root with
        | element name attrs children =>
            rcases mem_descendantsOfAll.1 member with ⟨child, among, below⟩
            exact steady.no_controls child among inner below (beq_iff_eq.1 control)
        | text | comment => cases member
      simp [validate, first, isParent, noFormula, noControl]

/-- The labels of the filling are those of the span and of the new run. -/
theorem Span.everyLabel_filling {property : Label → Prop} {spell : Term → QName} {text : String}
    (allows : AllowsNew property spell text)
    (every : ∀ node ∈ span.whole, EveryLabel property node) :
    ∀ node ∈ span.around (span.filling spell text), EveryLabel property node := by
  simp only [whole, around, List.forall_mem_cons, List.forall_mem_append] at every ⊢
  rcases every with ⟨start, inside, stop⟩
  refine ⟨start, List.forall_mem_cons.2 ⟨?_, ?_⟩, stop⟩
  · exact everyLabel_textRun allows (everyLabel_formatting inside)
  · exact fun node member => inside node (List.mem_filter.1 member).1

private theorem markersOutsideProps_textRun {spell : Term → QName} (spells : SpellsWords spell)
    (text : String) {formatting : List Node}
    (outside : ∀ node ∈ formatting, MarkersOutsideProps node) :
    MarkersOutsideProps (textRun spell formatting text) := by
  obtain ⟨attrs, content, same, isText⟩ := exists_runTextElement spell text
  have silent : MarkersOutsideProps (runTextElement spell text) := by
    rw [same, markersOutsideProps_element, spells.runText]
    refine ⟨fun isProps => (by cases isProps), ?_⟩
    rcases isText with ⟨rfl, _⟩ | rfl
    · exact List.forall_mem_nil _
    · refine List.forall_mem_singleton.2 fun props member isProps => ?_
      rw [(mem_selfAndDescendants_of_childless rfl).1 member] at isProps
      cases isProps
  rw [textRun, markersOutsideProps_element, spells.run]
  refine ⟨fun isProps => (by cases isProps), List.forall_mem_append.2 ⟨outside, ?_⟩⟩
  exact List.forall_mem_singleton.2 silent

private theorem Span.markersOutsideProps_filling {spell : Term → QName} (spells : SpellsWords spell)
    (text : String) (outside : ∀ node ∈ span.whole, MarkersOutsideProps node) :
    ∀ node ∈ span.around (span.filling spell text), MarkersOutsideProps node := by
  simp only [whole, around, List.forall_mem_cons, List.forall_mem_append] at outside ⊢
  rcases outside with ⟨start, inside, stop⟩
  refine ⟨start, List.forall_mem_cons.2 ⟨markersOutsideProps_textRun spells text ?_, ?_⟩, stop⟩
  · intro formatting member
    obtain ⟨_, run, among, _, isChild⟩ := mem_of_firstFormatting (Option.mem_toList.1 member)
    cases run with
    | element name attrs children =>
        exact (markersOutsideProps_element.1 (inside _ among)).2 formatting isChild
    | text | comment => cases isChild
  · exact fun node member => inside node (List.mem_filter.1 member).1

/-- With another filling the document has no marker in properties either. -/
private theorem Ready.markersOutsideProps (ready : Ready bookmark top gap span)
    {spell : Term → QName} (spells : SpellsWords spell) (text : String)
    (outside : ∀ node ∈ gap.fill span.whole, MarkersOutsideProps node) :
    ∀ node ∈ gap.fill (span.around (span.filling spell text)), MarkersOutsideProps node := by
  have hands : ∀ name attrs children, OpenLabel (.element name attrs) →
      MarkersOutsideProps (.element name attrs children) →
        (∀ child ∈ children, MarkersOutsideProps child) ∧
          ∀ others, (∀ child ∈ others, MarkersOutsideProps child) →
            MarkersOutsideProps (.element name attrs others) := by
    intro name attrs children opens whole
    refine ⟨(markersOutsideProps_element.1 whole).2, fun others each => ?_⟩
    exact markersOutsideProps_element.2 ⟨fun isProps => absurd isProps opens.no_props, each⟩
  rcases Gap.forall_fill ready.opens hands outside with ⟨inside, refill⟩
  exact refill _ (span.markersOutsideProps_filling spells text inside)

/-- A bookmark that is ready in a steady document is filled at its site. -/
private theorem Ready.exists_fills_site (ready : Ready bookmark top gap span) (steady : Steady root)
    (flat : root.flatten = span.document gap top) (text : String) :
    ∃ filled, substitute root false bookmark text = .ok filled ∧
      Fills root bookmark text filled (span.siteIn gap top) gap.path := by
  have valid := ready.valid steady flat
  have located := ready.locate_eq
  have marks := ready.marks
  rw [← flat] at located marks
  have success := substitute_of_located text valid located
  exact ⟨_, success, fills_of_marks steady.free.self valid located marks success⟩

section Filling

variable {spell : Term → QName}

private theorem Span.no_controls_filling (spells : SpellsWords spell) (text : String)
    (before : ∀ node ∈ gap.fill span.whole,
      EveryLabel (fun label => label.kind ≠ .contentControl) node) :
    ∀ node ∈ gap.fill (span.around (span.filling spell text)),
      EveryLabel (fun label => label.kind ≠ .contentControl) node := by
  have newLabels : AllowsNew (fun label => label.kind ≠ .contentControl) spell text := by
    apply spells.allowsNew
    rintro label (kind | kind | kind | kind) <;> simp [kind]
  exact Gap.everyLabel_fill before
    (span.everyLabel_filling newLabels (Gap.everyLabel_of_fill before))

/-- The root is no properties, since it has a marker in it. -/
private theorem Ready.markersOutsideProps_root (ready : Ready bookmark top gap span)
    (spells : SpellsWords spell) (text : String)
    (before : MarkersOutsideProps (span.document gap top)) :
    MarkersOutsideProps
      (.element top.1 top.2 (gap.fill (span.around (span.filling spell text)))) := by
  rcases markersOutsideProps_element.1 before with ⟨root, inside⟩
  have below := ready.markersOutsideProps spells text inside
  refine markersOutsideProps_element.2 ⟨fun isProps => ?_, below⟩
  have start := Gap.everyLabel_of_fill (root isProps) span.start List.mem_cons_self
  exact absurd (kind_of_startsBookmark ready.starts) start.self.1

end Filling

/-- A bookmark that is ready in a steady document is filled in the flat form, and nothing is lost
of what the next substitution needs. -/
theorem Ready.exists_filled (ready : Ready bookmark top gap span) (steady : Steady root)
    (flat : root.flatten = span.document gap top) (text : String) :
    ∃ filled, substitute root false bookmark text = .ok filled ∧ Steady filled ∧
      filled.label = root.label ∧
      filled.flatten =
        .element top.1 top.2 (gap.fill (span.around (span.filling root.spell text))) := by
  have spells := spellsWords_spell root
  obtain ⟨filled, success, fills⟩ := ready.exists_fills_site steady flat text
  have marks := fills.marks
  have opens := ready.openSteps
  rw [← flat] at opens
  have edges := marks.everyEdge_regroup opens steady.stable steady.free steady.edges ready.marked
    ready.inline
  have flatNext : ∀ node ∈ (root.flatten.replaceAt gap.path
      ((span.siteIn gap top).withRun root.spell text)).children, FlatSibling False node :=
    marks.flatSibling_withRun spells steady.flat
  have result := fills.eq_regroup steady.free edges
  have fillsIn : filled = fillIn root.spell text
      (root.flatten.replaceAt gap.path (span.siteIn gap top).withPlaceholder).regroup := by
    rw [result, ← marks.fillIn_eq (everyLabel_flatten steady.free), regroup_fillIn spells]
  have next : root.flatten.replaceAt gap.path ((span.siteIn gap top).withRun root.spell text) =
      .element top.1 top.2 (gap.fill (span.around (span.filling root.spell text))) := by
    rw [flat, Site.withRun, span.holding_siteIn]
    exact gap.replaceAt_holding top _ _
  rw [next] at result flatNext
  have flattened : filled.flatten =
      .element top.1 top.2 (gap.fill (span.around (span.filling root.spell text))) := by
    rw [result, flatten_regroup flatNext]
  refine ⟨filled, success, ?_, fills.label_eq steady.free, flattened⟩
  constructor
  case stable => rw [flattened, result]
  case flat => rwa [flattened]
  case free => exact fills.placeholderFree steady.free
  case edges =>
    rw [fillsIn]
    exact everyEdge_fillIn spells edges
  case no_controls =>
    have before := everyLabel_children_flatten steady.no_controls
    rw [flat] at before
    rw [result, regroup_element, children_element]
    exact everyLabel_regroupAll (Span.no_controls_filling spells text before)
  case markers =>
    have before := steady.markers.flatten
    rw [flat] at before
    rw [result]
    exact (ready.markersOutsideProps_root spells text before).regroup

end Ready

end Bookmark

end TemplateFill
