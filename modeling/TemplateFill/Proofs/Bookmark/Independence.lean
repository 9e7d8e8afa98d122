import TemplateFill.Proofs.Bookmark.ReadBack
import TemplateFill.Proofs.Bookmark.Steady

/-!
# Independent bookmarks

Two bookmarks that stand apart can be filled in either order, with the same result, and filling
one does not change what the other shows.  Filling a bookmark twice leaves the second text.
-/

namespace TemplateFill

namespace Bookmark

open Node

/-! ## A bookmark that can be filled is ready -/

section Ready

variable {root filled : Node} {revised : Bool} {bookmark text : String} {pair : MarkerPair}

/-- What is known of a document in which a bookmark is valid. -/
theorem of_validate (valid : validate root revised bookmark = .ok ()) :
    revised = false ∧ ∃ start marker, findStart? root bookmark = some (start, marker) ∧
      (root.at? start.dropLast).any (·.kind == .math) = false := by
  rw [validate] at valid
  split at valid
  · cases valid
  · rename_i start marker first
    split at valid
    · cases valid
    · rename_i noFormula
      split at valid
      · cases valid
      · rename_i notRevised
        exact ⟨by simpa using notRevised, start, marker, first, by simpa using noFormula⟩

/-- A step to a bookmark passes no other marker of it, and enters no container. -/
private theorem labels_of_passes {id : Int} {left : List Node} {child : Node}
    (passes : Site.Passes bookmark id left child) (opens : OpenStep left child)
    (alone : child.container?.isSome = false) :
    ((∀ node ∈ left, EveryLabel (Refuses (isMarkerOf bookmark id)) node) ∧
      Refuses (isMarkerOf bookmark id) child.label) ∧ OpenLabel child.label := by
  have byMarker := byLabel_isMarkerOf bookmark id
  rcases passes_iff.1 passes with ⟨before, entered⟩
  refine ⟨⟨byMarker.noneAmong_iff.1 before, byMarker.refuses_iff.2 entered⟩, ?_⟩
  constructor
  · exact beq_eq_false_iff_ne.1 opens.no_paragraph
  · exact beq_eq_false_iff_ne.1 opens.no_props
  · exact opens.no_control
  · exact byLabel_container.refuses_iff.2 alone

section Site

variable {site : Site} {path : Path}

private theorem Site.Marks.no_marker_left (marks : site.Marks root bookmark path) :
    ∀ node ∈ site.left, EveryLabel (Refuses (isMarkerOf bookmark site.id)) node := by
  apply (byLabel_isMarkerOf bookmark site.id).noneAmong_iff.1
  intro node member inner below
  apply Bool.or_eq_false_iff.2
  exact ⟨marks.no_start node member inner below,
    (noneAmong_append.1 marks.no_stop).1 node member inner below⟩

/-- A bookmark that has been located stands in no container. -/
private theorem Fills.no_container_above (fills : Fills root bookmark text filled site path) :
    ∀ outer ∈ root.flatten.enclosing (path ++ [site.left.length]),
      outer.container?.isSome = false := by
  have nearest := ((locate_of_marks_iff fills.marks).1 fills.located).1
  rw [nearestContainer?, List.findSome?_eq_none_iff] at nearest
  intro outer member
  rw [nearest outer (List.mem_reverse.2 member)]
  rfl

end Site

/-- A bookmark that is filled once and ends in a paragraph is ready. -/
theorem exists_ready (steady : Steady root)
    (success : substitute root revised bookmark text = .ok filled)
    (located : locate root.flatten bookmark = .ok pair) (ends : EndsInParagraph root pair)
    (range : ∀ node ∈ root.flatten.rangeOf pair,
      node.kind ≠ .altChunk ∧ node.kind ≠ .tableCellProps) :
    ∃ top gap span, root.flatten = Span.document span gap top ∧ Ready bookmark top gap span ∧
      pair = (span.siteIn gap top).pair gap.path := by
  obtain ⟨site, path, fills⟩ := exists_fills steady.free success
  obtain rfl : site.pair path = pair := Except.ok.inj (fills.located.symm.trans located)
  rw [rangeOf_pair fills.marks.reached] at range
  obtain ⟨clear, marked⟩ := ends.marked steady.stable fills.marks
  obtain ⟨_, start, marker, first, noFormula⟩ := of_validate (valid_of_substitute success)
  obtain ⟨parent, isParent, kind⟩ := fills.marks.parent_kind steady.stable steady.markers first
  have alone := fills.no_container_above
  have rootAlone : root.flatten.container?.isSome = false := by
    apply alone
    cases path <;> exact List.mem_cons_self
  have steps := (fills.marks.reached.and (fills.openSteps clear)).and
    (fills.marks.reached.of_enclosing alone)
  rw [site.holding_eq] at steps
  obtain ⟨top, gap, flat, rfl, sameLeft, sameRight, sameParent⟩ := Gap.exists_of_reaches steps
  rw [flat] at steps rootAlone
  have leftNone : ∀ node ∈ gap.left, EveryLabel (Refuses (isMarkerOf bookmark site.id)) node := by
    rw [sameLeft]
    exact fills.marks.no_marker_left
  rcases Gap.preceding_of_reaches steps
    (fun left child step => labels_of_passes step.1.1 step.1.2 step.2) leftNone with
    ⟨preceding, above⟩
  refine ⟨top, gap, site.span, flat, ?_, ?_⟩
  · constructor
    case no_marker => exact preceding
    case no_stop =>
      exact (byLabel_endsBookmark site.id).noneAmong_iff.1
        (noneAmong_append.1 fills.marks.no_stop).2
    case starts => exact fills.marks.starts
    case markerId => exact fills.marks.markerId
    case ends => exact fills.marks.ends
    case opens => exact above
    case top_free => exact byLabel_container.refuses_iff.2 rootAlone
    case marked => rwa [sameRight]
    case inline => exact fills.inline_survivors range
    case no_formula =>
      rw [sameParent, sameRight]
      change landing site.name.kind site.start (site.inside ++ site.stop :: site.right) ≠ .math
      rw [← kind]
      simpa [isParent] using noFormula
  · rw [Span.siteIn, sameLeft, sameRight, sameParent]
    rfl

end Ready

/-! ## After another bookmark has been filled -/

section Fork

variable {root : Node} {bookmark : String} {top : QName × List Attr} {outer first second : Gap}
  {span other : Span} {segment : List Node}

/-- A bookmark that is ready below a fork stays ready with other siblings there, if these hold no
marker of it and the groups behind its markers still end with marks of paragraphs. -/
private theorem Ready.around {before after before' after' : List Node}
    (ready : Ready bookmark top (outer.into (first.around before after)) span)
    (fresh : ∀ node ∈ before', EveryLabel (Refuses (isMarkerOf bookmark span.id)) node)
    (keeps : ∀ front,
      firstGroupMarked (front ++ (outer.into (first.around before after)).right) = true →
        firstGroupMarked (front ++ (outer.into (first.around before' after')).right) = true) :
    Ready bookmark top (outer.into (first.around before' after')) span := by
  have passed := ready.no_marker
  have above := ready.opens
  have noFormula := ready.no_formula
  rw [Gap.preceding_into, Gap.preceding_around] at passed
  rw [Gap.above_into, Gap.above_around] at above
  rw [Gap.parent_into, Gap.parent_around] at noFormula
  constructor
  case no_marker =>
    rw [Gap.preceding_into, Gap.preceding_around]
    exact ⟨passed.1, fresh, passed.2.2⟩
  case no_stop => exact ready.no_stop
  case starts => exact ready.starts
  case markerId => exact ready.markerId
  case ends => exact ready.ends
  case opens => rwa [Gap.above_into, Gap.above_around]
  case top_free => exact ready.top_free
  case marked => exact keeps [span.stop] ready.marked
  case inline => exact ready.inline
  case no_formula =>
    rw [Gap.parent_into, Gap.parent_around]
    refine landing_ne ?_ (by decide) noFormula
    have further := keeps (span.inside ++ [span.stop])
    simpa only [List.append_assoc, List.singleton_append] using further

/-- A bookmark stays ready when what stands before it changes. -/
theorem Ready.behind (ready : Ready bookmark top (outer.into (second.around segment [])) span)
    {changed : List Node}
    (fresh : ∀ node ∈ changed, EveryLabel (Refuses (isMarkerOf bookmark span.id)) node) :
    Ready bookmark top (outer.into (second.around changed [])) span := by
  have sameRight : (outer.into (second.around changed [])).right =
      (outer.into (second.around segment [])).right := by
    rw [Gap.right_into_around_before, Gap.right_into_around_before]
  exact ready.around fresh fun front marked => by rwa [sameRight]

/-- What is behind a gap depends on what has been added behind it in one place at most. -/
theorem exists_right_into_around (outer first : Gap) :
    (∃ front, ∀ after, (outer.into (first.around [] after)).right =
      front ++ (after ++ outer.right)) ∨
      ∀ after after', (outer.into (first.around [] after)).right =
        (outer.into (first.around [] after')).right := by
  cases first with
  | here left right => exact .inl ⟨right, fun after => by simp [Gap.around]⟩
  | under left name attrs inner right => exact .inr fun after after' => by simp [Gap.around]

/-- A bookmark stays ready when what stands behind it changes, if the groups there still end with
marks of paragraphs. -/
theorem Ready.before (ready : Ready bookmark top (outer.into (first.around [] segment)) span)
    {changed : List Node}
    (keeps : firstGroupMarked (segment ++ outer.right) = true →
      firstGroupMarked (changed ++ outer.right) = true) :
    Ready bookmark top (outer.into (first.around [] changed)) span := by
  have behind : ∀ front, firstGroupMarked (front ++ (outer.into (first.around [] segment)).right) =
      true → firstGroupMarked (front ++ (outer.into (first.around [] changed)).right) = true := by
    intro front marked
    rcases exists_right_into_around outer first with ⟨between, parts⟩ | same
    · rw [parts, ← List.append_assoc] at marked ⊢
      exact firstGroupMarked_append_mono keeps marked
    · rwa [same changed segment]
  exact ready.around (List.forall_mem_nil _) behind

/-- Filling a bookmark leaves the groups that end with marks of paragraphs. -/
theorem Ready.firstGroupMarked_filling
    (ready : Ready bookmark top (outer.into (second.around segment [])) span)
    {spell : Term → QName} (spells : SpellsWords spell) (text : String)
    (marked : firstGroupMarked (second.fill span.whole ++ outer.right) = true) :
    firstGroupMarked (second.fill (span.around (span.filling spell text)) ++ outer.right) =
      true := by
  cases second with
  | here left right =>
      have stopMarked := ready.marked
      have startInline : span.start.isBlockLevel = false := by
        rw [isBlockLevel, kind_of_startsBookmark ready.starts]
      have runInline : (textRun spell (firstFormatting? span.inside).toList text).isBlockLevel =
          false := by
        rw [textRun, isBlockLevel, kind_element, spells.run]
      have parts : (Gap.here left right).fill (span.around (span.filling spell text)) ++
          outer.right = left ++ ((span.start :: span.filling spell text) ++
            span.stop :: (right ++ outer.right)) := by
        simp [Gap.fill, Span.around]
      have parts' : (Gap.here left right).fill span.whole ++ outer.right =
          left ++ ((span.start :: span.inside) ++ span.stop :: (right ++ outer.right)) := by
        simp [Gap.fill, Span.whole, Span.around]
      have inline : AllInline (span.start :: span.filling spell text) :=
        List.forall_mem_cons.2 ⟨startInline, List.forall_mem_cons.2 ⟨runInline, ready.inline⟩⟩
      rw [Gap.around, Gap.right_into_here, List.append_nil] at stopMarked
      rw [parts'] at marked
      rw [parts]
      refine firstGroupMarked_append_mono (fun _ => ?_) marked
      rw [firstGroupMarked_append_inline inline, stopMarked]
  | under left name attrs inner right =>
      have above := ready.opens
      rw [Gap.above_into, Gap.above_around] at above
      have block : ∀ children children' : List Node,
          (element name attrs children).isBlockLevel =
            (element name attrs children').isBlockLevel :=
        fun children children' => isBlockLevel_eq_of_kind_eq rfl above.2.1.no_control
      simp only [Gap.fill, List.append_assoc, List.cons_append] at marked ⊢
      refine firstGroupMarked_append_mono (fun same => ?_) marked
      rw [← same]
      exact firstGroupMarked_cons_congr (block _ _) rfl

end Fork

/-! ## Filling a bookmark again -/

section Again

variable {bookmark : String} {top : QName × List Attr} {gap : Gap} {span : Span}
  {spell : Term → QName}

/-- The span of a bookmark that has been filled. -/
def Span.filled (span : Span) (spell : Term → QName) (text : String) : Span :=
  { span with inside := span.filling spell text }

theorem firstFormatting?_textRun (spells : SpellsWords spell) (text : String)
    (range rest : List Node) :
    firstFormatting? (textRun spell (firstFormatting? range).toList text :: rest) =
      firstFormatting? range := by
  have first : (textRun spell (firstFormatting? range).toList text :: rest).find? (·.kind == .run) =
      some (textRun spell (firstFormatting? range).toList text) :=
    List.find?_cons_of_pos (beq_iff_eq.2 spells.run)
  have noProps : ((runTextElement spell text).kind == .runProps) = false := by
    rw [runTextElement, kind_element, spells.runText]
    rfl
  conv_lhs => rw [firstFormatting?, first, Option.bind_some]
  cases found : firstFormatting? range with
  | none =>
      change [runTextElement spell text].find? (·.kind == .runProps) = none
      rw [List.find?_cons_of_neg (by simp [noProps]), List.find?_nil]
  | some formatting =>
      have isProps : (formatting.kind == .runProps) = true :=
        beq_iff_eq.2 (mem_of_firstFormatting found).1
      exact List.find?_cons_of_pos isProps

/-- Only the text of the last filling is left. -/
theorem Span.filling_filled (spells : SpellsWords spell) (span : Span) (text other : String) :
    (span.filled spell text).filling spell other = span.filling spell other := by
  have gone : (textRun spell (firstFormatting? span.inside).toList text).outlivesReplacement =
      false := by
    rw [outlivesReplacement, textRun, kind_element, spells.run]
    rfl
  rw [filling, filled, filling, firstFormatting?_textRun spells, filling,
    List.filter_cons_of_neg (by simp [gone]), List.filter_filter]
  simp

/-- A bookmark that has been filled is ready to be filled again. -/
theorem Ready.filled (ready : Ready bookmark top gap span) (spells : SpellsWords spell)
    (text : String) : Ready bookmark top gap (span.filled spell text) := by
  have runInline : (textRun spell (firstFormatting? span.inside).toList text).isBlockLevel =
      false := by
    rw [textRun, isBlockLevel, kind_element, spells.run]
  have startInline : span.start.isBlockLevel = false := by
    rw [isBlockLevel, kind_of_startsBookmark ready.starts]
  have inline : AllInline (span.filling spell text) :=
    List.forall_mem_cons.2 ⟨runInline, ready.inline⟩
  rcases List.forall_mem_cons.1 ready.no_stop with ⟨startSilent, insideSilent⟩
  constructor
  case no_marker => exact ready.no_marker
  case no_stop =>
    refine List.forall_mem_cons.2 ⟨startSilent, List.forall_mem_cons.2 ⟨?_, ?_⟩⟩
    · exact everyLabel_textRun (allowsNew_endsBookmark spells text span.id)
        (everyLabel_formatting insideSilent)
    · exact fun node member => insideSilent node (List.mem_filter.1 member).1
  case starts => exact ready.starts
  case markerId => exact ready.markerId
  case ends => exact ready.ends
  case opens => exact ready.opens
  case top_free => exact ready.top_free
  case marked => exact ready.marked
  case inline =>
    intro node member
    exact inline node (List.mem_filter.1 member).1
  case no_formula =>
    have marked : firstGroupMarked ((span.filled spell text).inside ++ span.stop :: gap.right) =
        true := by
      rw [← ready.marked]
      exact firstGroupMarked_append_inline inline
    rw [show (span.filled spell text).start = span.start from rfl,
      show (span.filled spell text).stop = span.stop from rfl, landing_marked startInline marked]
    decide

end Again

/-! ## Two bookmarks -/

section Two

variable {root : Node} {top : QName × List Attr}

/-- What a bookmark shows that is ready. -/
theorem Ready.text_eq {bookmark : String} {gap : Gap} {span : Span}
    (ready : Ready bookmark top gap span) (flat : root.flatten = span.document gap top) :
    Bookmark.text root bookmark = .ok (String.join (span.inside.map shownText)) := by
  have marks := ready.marks
  rw [← flat] at marks
  exact text_eq_of_marks marks

/-- Steady documents with one flat form are one document. -/
theorem Steady.eq_of_flatten {left right : Node} (steady : Steady left) (steady' : Steady right)
    (same : left.flatten = right.flatten) : left = right := by
  rw [← steady.stable, ← steady'.stable, same]

/-- Two bookmarks in the gaps of a fork are filled in either order, with one result, and each of
them shows the same when the other has been filled. -/
theorem commutes_of_fork {name name' : String} {gap gap' : Gap} {span span' : Span}
    (fork : Gap.Fork gap gap' span.whole span'.whole) (steady : Steady root)
    (flat : root.flatten = span.document gap top) (ready : Ready name top gap span)
    (ready' : Ready name' top gap' span') (text text' : String) :
    ∃ one two both, substitute root false name text = .ok one ∧
      substitute root false name' text' = .ok two ∧
      substitute one false name' text' = .ok both ∧ substitute two false name text = .ok both ∧
      Bookmark.text one name' = Bookmark.text root name' ∧
      Bookmark.text two name = Bookmark.text root name := by
  rcases fork with ⟨outer, first, second, rfl, rfl⟩
  have spells := spellsWords_spell root
  have flat' : root.flatten =
      span'.document (outer.into (second.around (first.fill span.whole) [])) top := by
    rw [flat]
    simp [Span.document]
  obtain ⟨one, toOne, steadyOne, label, flatOne⟩ := ready.exists_filled steady flat text
  obtain ⟨two, toTwo, steadyTwo, label', flatTwo⟩ := ready'.exists_filled steady flat' text'
  -- The second bookmark, with the first one filled before it.
  have changed : ∀ node ∈ first.fill (span.around (span.filling root.spell text)),
      EveryLabel (Refuses (isMarkerOf name' span'.id)) node := by
    have before := ready'.no_marker
    rw [Gap.preceding_into, Gap.preceding_around] at before
    exact Gap.everyLabel_fill before.2.1 (span.everyLabel_filling
      (allowsNew_isMarkerOf spells name' text span'.id) (Gap.everyLabel_of_fill before.2.1))
  have readyOne := ready'.behind changed
  have documentOne : one.flatten = span'.document (outer.into
      (second.around (first.fill (span.around (span.filling root.spell text))) [])) top := by
    rw [flatOne]
    simp [Span.document]
  obtain ⟨both, thenTwo, steadyBoth, _, flatBoth⟩ :=
    readyOne.exists_filled steadyOne documentOne text'
  -- The first bookmark, with the second one filled behind it.
  have readyTwo := ready.before (ready'.firstGroupMarked_filling spells text')
  have documentTwo : two.flatten = span.document (outer.into
      (first.around [] (second.fill (span'.around (span'.filling root.spell text'))))) top := by
    rw [flatTwo]
    simp [Span.document]
  obtain ⟨both', thenOne, steadyBoth', _, flatBoth'⟩ :=
    readyTwo.exists_filled steadyTwo documentTwo text
  have same : both.flatten = both'.flatten := by
    rw [flatBoth, flatBoth', spell_eq_of_label_eq label, spell_eq_of_label_eq label']
    simp
  obtain rfl := steadyBoth.eq_of_flatten steadyBoth' same
  refine ⟨one, two, both, toOne, toTwo, thenTwo, thenOne, ?_, ?_⟩
  · rw [readyOne.text_eq documentOne, ready'.text_eq flat']
  · rw [readyTwo.text_eq documentTwo, ready.text_eq flat]

/-- Filling a bookmark twice is filling it once with the second text. -/
theorem Ready.twice {bookmark : String} {gap : Gap} {span : Span}
    (ready : Ready bookmark top gap span) (steady : Steady root)
    (flat : root.flatten = span.document gap top) (text other : String) :
    ∃ once twice, substitute root false bookmark text = .ok once ∧
      substitute once false bookmark other = .ok twice ∧
      substitute root false bookmark other = .ok twice := by
  have spells := spellsWords_spell root
  obtain ⟨once, toOnce, steadyOnce, label, flatOnce⟩ := ready.exists_filled steady flat text
  obtain ⟨direct, toDirect, steadyDirect, _, flatDirect⟩ := ready.exists_filled steady flat other
  obtain ⟨twice, toTwice, steadyTwice, _, flatTwice⟩ :=
    (ready.filled spells text).exists_filled steadyOnce flatOnce other
  have same : twice.flatten = direct.flatten := by
    rw [flatTwice, flatDirect, spell_eq_of_label_eq label, span.filling_filled spells]
    rfl
  obtain rfl := steadyTwice.eq_of_flatten steadyDirect same
  exact ⟨once, twice, toOnce, toTwice, toDirect⟩

end Two

end Bookmark

namespace MarkerPair

/-- A position is that of one of the two markers or of a sibling between them, or is below one of
these. -/
def Covers (pair : MarkerPair) (position : Path) : Prop :=
  ∃ index rest, position = pair.parent ++ index :: rest ∧ pair.first ≤ index ∧ index ≤ pair.last

/-- Neither marker of another pair is covered. -/
structure Clears (pair other : MarkerPair) : Prop where
  first : ¬ pair.Covers (other.parent ++ [other.first])
  last : ¬ pair.Covers (other.parent ++ [other.last])

end MarkerPair

namespace Bookmark

open Node

/-- A bookmark that can be filled and ends in a paragraph, with neither a chunk nor cell properties
between its markers. -/
structure Fillable (root : Node) (revised : Bool) (bookmark : String) (pair : MarkerPair) :
    Prop where
  fills : ∃ text filled, substitute root revised bookmark text = .ok filled
  located : locate root.flatten bookmark = .ok pair
  ends : EndsInParagraph root pair
  range : ∀ node ∈ root.flatten.rangeOf pair,
    node.kind ≠ .altChunk ∧ node.kind ≠ .tableCellProps

section Independence

variable {root : Node} {revised : Bool} {name name' : String} {pair pair' : MarkerPair}

/-- What a span covers its pair of markers covers. -/
private theorem covers_of_gap {span : Span} {gap : Gap} {top : QName × List Attr}
    {position : Path} (covers : gap.Covers span.whole.length position) :
    ((span.siteIn gap top).pair gap.path).Covers position := by
  rcases covers with ⟨index, rest, same, lower, upper⟩
  refine ⟨index, rest, same, lower, ?_⟩
  simp only [Site.pair, Span.siteIn, Span.whole, Span.around, List.length_append,
    List.length_cons, List.length_nil] at upper ⊢
  omega

/-- Bookmarks that stand apart do not interfere: they can be filled in either order with one
result, filling one leaves what the other shows, and the last text that is filled in stays.  The
document is a `Node`, so that nothing is below its texts and comments. -/
theorem substitute_independent (stable : root.flatten.regroup = root)
    (placed : root.PropsInParagraphs)
    (bodies : ∀ outer ∈ root.selfAndDescendants, outer.kind = .body →
      ∀ child ∈ outer.children, child.kind ≠ .run)
    (free : root.PlaceholderFree) (outside : MarkersOutsideProps root)
    (fillable : Fillable root revised name pair) (fillable' : Fillable root revised name' pair')
    (clears : pair.Clears pair') (clears' : pair'.Clears pair) (text text' : String) :
    (∃ both,
        (substitute root revised name text >>= fun one => substitute one revised name' text') =
          .ok both ∧
        (substitute root revised name' text' >>= fun two => substitute two revised name text) =
          .ok both) ∧
      (∃ one shown, substitute root revised name text = .ok one ∧
        Bookmark.text root name' = .ok shown ∧ Bookmark.text one name' = .ok shown) ∧
      ∃ twice,
        (substitute root revised name text >>= fun once => substitute once revised name text') =
          .ok twice ∧
        substitute root revised name text' = .ok twice := by
  obtain ⟨_, filled, success⟩ := fillable.fills
  obtain ⟨_, filled', success'⟩ := fillable'.fills
  have valid := valid_of_substitute success
  obtain ⟨rfl, _⟩ := of_validate valid
  have steady : Steady root := by
    constructor
    · exact stable
    · exact fun child member => flatSibling_of_propsInParagraphs placed member
    · exact free
    · exact everyEdge_of_bodies free bodies
    · exact everyLabel_child_of_descendants (no_controls_of_validate valid)
    · exact outside
  obtain ⟨top, gap, span, flat, ready, rfl⟩ :=
    exists_ready steady success fillable.located fillable.ends fillable.range
  obtain ⟨top', gap', span', flat', ready', rfl⟩ :=
    exists_ready steady success' fillable'.located fillable'.ends fillable'.range
  obtain ⟨sameName, sameAttrs, same⟩ := element.inj (flat.symm.trans flat')
  obtain rfl : top = top' := Prod.ext sameName sameAttrs
  have forks := Gap.nonempty_fork same (fun covers => clears.first (covers_of_gap covers))
    (fun covers => clears'.first (covers_of_gap covers))
  have inEitherOrder : ∃ one two both, substitute root false name text = .ok one ∧
      substitute root false name' text' = .ok two ∧
      substitute one false name' text' = .ok both ∧ substitute two false name text = .ok both ∧
      Bookmark.text one name' = Bookmark.text root name' := by
    rcases forks with ⟨⟨fork⟩⟩ | ⟨⟨fork⟩⟩
    · obtain ⟨one, two, both, toOne, toTwo, thenTwo, thenOne, shown, _⟩ :=
        commutes_of_fork fork steady flat ready ready' text text'
      exact ⟨one, two, both, toOne, toTwo, thenTwo, thenOne, shown⟩
    · obtain ⟨two, one, both, toTwo, toOne, thenOne, thenTwo, _, shown⟩ :=
        commutes_of_fork fork steady flat' ready' ready text' text
      exact ⟨one, two, both, toOne, toTwo, thenTwo, thenOne, shown⟩
  obtain ⟨one, two, both, toOne, toTwo, thenTwo, thenOne, shown⟩ := inEitherOrder
  obtain ⟨once, twice, toOnce, toTwice, toDirect⟩ := ready.twice steady flat text text'
  refine ⟨⟨both, ?_, ?_⟩, ⟨one, _, toOne, ready'.text_eq flat', ?_⟩, twice, ?_, toDirect⟩
  · rw [toOne]
    exact thenTwo
  · rw [toTwo]
    exact thenOne
  · rw [shown, ready'.text_eq flat']
  · rw [toOnce]
    exact toTwice

end Independence

/-! ## Two bookmarks in one paragraph -/

def neighbourStart : Node := wordElement "bookmarkStart" [("id", "4"), ("name", "c")] []

def neighbourStop : Node := wordElement "bookmarkEnd" [("id", "4")] []

/-- A document with a second bookmark in the paragraph that the first one ends in. -/
def neighbours : Node :=
  wordElement "document" [] [wordElement "body" [] [
    wordElement "p" [] [wordElement "pPr" [] [], sampleStart, boldRun "one"],
    wordElement "p" [] [boldRun "two", sampleStop, neighbourStart, boldRun "three",
      neighbourStop]]]

/-- Where the markers of the second bookmark are in the flat form. -/
def neighbourPair : MarkerPair := ⟨[0], 5, 7, by decide⟩

private theorem fillable_neighbours : Fillable neighbours false "b" samplePair := by
  have lifted : InParagraph sampleStop
      ([wordElement "p" [] [wordElement "pPr" [] [], sampleStart, boldRun "one"]] ++
        .element ⟨some Namespace.word, some "w", "p"⟩ []
          ([boldRun "two"] ++ sampleStop :: [neighbourStart, boldRun "three", neighbourStop]) ::
            []) [4] :=
    .lifted (by decide)
  have deeper : InParagraph sampleStop ([] ++ neighbours.children) [0, 4] :=
    .deeper (by decide) (by decide) lifted
  exact ⟨⟨"", _, rfl⟩, rfl, ⟨sampleStop, by decide, deeper⟩, by decide⟩

private theorem fillable_neighbours' : Fillable neighbours false "c" neighbourPair := by
  have lifted : InParagraph neighbourStop
      ([wordElement "p" [] [wordElement "pPr" [] [], sampleStart, boldRun "one"]] ++
        .element ⟨some Namespace.word, some "w", "p"⟩ []
          ([boldRun "two", sampleStop, neighbourStart, boldRun "three"] ++ neighbourStop :: []) ::
            []) [7] :=
    .lifted (by decide)
  have deeper : InParagraph neighbourStop ([] ++ neighbours.children) [0, 7] :=
    .deeper (by decide) (by decide) lifted
  exact ⟨⟨"", _, rfl⟩, rfl, ⟨neighbourStop, by decide, deeper⟩, by decide⟩

/-- The two bookmarks of the sample do not interfere. -/
theorem neighbours_independent :
    (∃ both,
        (substitute neighbours false "b" "x" >>= fun one => substitute one false "c" "y") =
          .ok both ∧
        (substitute neighbours false "c" "y" >>= fun two => substitute two false "b" "x") =
          .ok both) ∧
      (∃ one shown, substitute neighbours false "b" "x" = .ok one ∧
        Bookmark.text neighbours "c" = .ok shown ∧ Bookmark.text one "c" = .ok shown) ∧
      ∃ twice,
        (substitute neighbours false "b" "x" >>= fun once => substitute once false "b" "y") =
          .ok twice ∧
        substitute neighbours false "b" "y" = .ok twice := by
  have stable : neighbours.flatten.regroup = neighbours := by rfl
  have placed : neighbours.PropsInParagraphs :=
    ⟨by decide, show ∀ inner ∈ neighbours.outsideProps, inner.isParagraph = false →
      ∀ child ∈ inner.children, child.isParagraphProps = false by decide⟩
  have bodies : ∀ outer ∈ neighbours.selfAndDescendants, outer.kind = .body →
      ∀ child ∈ outer.children, child.kind ≠ .run := by decide
  have free : neighbours.PlaceholderFree :=
    show ∀ inner ∈ neighbours.selfAndDescendants, inner.label.kind ≠ .placeholder by decide
  have outside : MarkersOutsideProps neighbours :=
    show ∀ props ∈ neighbours.selfAndDescendants, props.isParagraphProps = true →
      ∀ inner ∈ props.descendants, inner.kind ≠ .bookmarkStart ∧ inner.kind ≠ .bookmarkEnd by
      decide
  have clears : samplePair.Clears neighbourPair := by
    constructor
    · rintro ⟨index, rest, same, lower, upper⟩
      simp [samplePair, neighbourPair] at same upper
      omega
    · rintro ⟨index, rest, same, lower, upper⟩
      simp [samplePair, neighbourPair] at same upper
      omega
  have clears' : neighbourPair.Clears samplePair := by
    constructor
    · rintro ⟨index, rest, same, lower, upper⟩
      simp [samplePair, neighbourPair] at same lower
      omega
    · rintro ⟨index, rest, same, lower, upper⟩
      simp [samplePair, neighbourPair] at same lower
      omega
  exact substitute_independent stable placed bodies free outside fillable_neighbours
    fillable_neighbours' clears clears' "x" "y"

end Bookmark

end TemplateFill
