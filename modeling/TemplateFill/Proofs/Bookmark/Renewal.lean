import TemplateFill.Proofs.Bookmark.Filling
import TemplateFill.Proofs.Bookmark.Reflow

/-!
# The bookmark in the next flat form

The way to a filled site is found again when the document is flattened once more.  At its end
there are the same markers, and between them stands what the placeholder became, before what
outlived the replacement.
-/

namespace TemplateFill

namespace Node

/-! ## Ways in the next flat form -/

/-- A step of a way that is found again in the next flat form. -/
structure ClearStep (accept : Node → Bool) (left : List Node) (child : Node) : Prop where
  passes_by : PassesBy accept left child
  opens : OpenStep left child
  left_free : ∀ node ∈ left, node.PlaceholderFree
  child_free : child.kind ≠ .placeholder

section Renewed

variable {spell : Term → QName} {text : String} {accept : Node → Bool}

theorem accept_renewed (byLabel : ByLabel accept) {node : Node} (other : node.kind ≠ .placeholder) :
    accept (renewed spell text node) = accept node :=
  byLabel _ _ (label_renewed spell text other)

/-- Nothing that is accepted comes up among what siblings become. -/
theorem Turns.noneAmong (byLabel : ByLabel accept) (allows : AllowsNew (Refuses accept) spell text)
    {carry nodes out carry' : List Node} (turns : Turns spell text carry nodes out carry')
    (carried : NoneAmong accept carry) (free : ∀ node ∈ nodes, node.PlaceholderFree)
    (none : NoneAmong accept nodes) : NoneAmong accept out ∧ NoneAmong accept carry' := by
  rw [byLabel.noneAmong_iff] at carried none
  rw [byLabel.noneAmong_iff, byLabel.noneAmong_iff]
  apply turns.labels _ allows carried
  intro node member
  rw [fillIn_of_placeholderFree (free node member)]
  exact none node member

/-- A way that passes by all accepted nodes is found again. -/
theorem Reaches.exists_renewed (spells : SpellsWords spell) (byLabel : ByLabel accept)
    (allows : AllowsNew (Refuses accept) spell text) {node target : Node} {path : Path}
    (reached : Reaches (ClearStep accept) node path target) (other : node.kind ≠ .placeholder)
    (flat : ∀ child ∈ node.children, FlatSibling True child) :
    (∃ path', Reaches (PassesBy accept) (renewed spell text node) path'
      (renewed spell text target)) ∧ ∀ child ∈ target.children, FlatSibling True child := by
  induction reached with
  | here => exact ⟨⟨[], .here⟩, flat⟩
  | @down name attrs left child right rest target passing _ ih =>
      rw [kind_element] at other
      rw [children_element] at flat
      have childFlat : ∀ grandchild ∈ child.children, FlatSibling True grandchild := by
        cases flat child (by simp) with
        | mark kind _ =>
            have refused := passing.opens.no_paragraph
            simp [isParagraph, kind] at refused
        | container _ _ below => exact below
        | props _ isProps =>
            have refused := passing.opens.no_props
            rw [isProps] at refused
            cases refused
        | text | comment => exact List.forall_mem_nil _
      obtain ⟨⟨path', way⟩, below⟩ := ih passing.child_free childFlat
      obtain ⟨out, carry, same, turns⟩ :=
        exists_reflow_append spells text name.kind [] left (child :: right)
      obtain ⟨mark, became⟩ := exists_reflow_cons spells text name.kind carry right
        passing.opens.no_paragraph passing.opens.no_props passing.child_free
      obtain ⟨none, _⟩ := turns.noneAmong byLabel allows (List.forall_mem_nil _) passing.left_free
        passing.passes_by.1
      refine ⟨⟨out.length :: path', ?_⟩, below⟩
      rw [renewed_element spells other attrs flat, same, became]
      refine .down ⟨none, ?_⟩ way
      rw [accept_renewed byLabel passing.child_free, passing.passes_by.2]

end Renewed

end Node

namespace Bookmark

open Node

/-! ## Markers -/

/-- A node that could be taken for a marker of the bookmark with this name and number. -/
def isMarkerOf (bookmark : String) (id : Int) (node : Node) : Bool :=
  node.startsBookmark bookmark || node.endsBookmark id

theorem byLabel_isMarkerOf (bookmark : String) (id : Int) : ByLabel (isMarkerOf bookmark id) := by
  intro left right same
  have starts : left.startsBookmark bookmark = right.startsBookmark bookmark :=
    byLabel_startsBookmark bookmark left right same
  have ends : left.endsBookmark id = right.endsBookmark id :=
    byLabel_endsBookmark id left right same
  rw [isMarkerOf, isMarkerOf, starts, ends]

theorem passes_iff {bookmark : String} {id : Int} {left : List Node} {child : Node} :
    Site.Passes bookmark id left child ↔ PassesBy (isMarkerOf bookmark id) left child := by
  simp only [Site.Passes, PassesBy, NoneAmong, isMarkerOf, Bool.or_eq_false_iff]
  constructor
  · rintro ⟨⟨noStart, childStart⟩, noStop, childStop⟩
    exact ⟨fun node member inner below => ⟨noStart node member inner below,
      noStop node member inner below⟩, childStart, childStop⟩
  · rintro ⟨none, childStart, childStop⟩
    exact ⟨⟨fun node member inner below => (none node member inner below).1, childStart⟩,
      fun node member inner below => (none node member inner below).2, childStop⟩

/-- No node that a substitution makes is a marker. -/
theorem allowsNew_isMarkerOf {spell : Term → QName} (spells : SpellsWords spell)
    (bookmark text : String) (id : Int) :
    AllowsNew (Refuses (isMarkerOf bookmark id)) spell text := by
  apply spells.allowsNew
  intro label made node same
  rw [← same] at made
  change node.kind = _ ∨ node.kind = _ ∨ node.kind = _ ∨ node.kind = _ at made
  rcases made with kind | kind | kind | kind <;>
    rw [isMarkerOf, startsBookmark, endsBookmark, kind] <;> rfl

theorem allowsNew_startsBookmark {spell : Term → QName} (spells : SpellsWords spell)
    (bookmark text : String) : AllowsNew (Refuses (·.startsBookmark bookmark)) spell text := by
  apply (allowsNew_isMarkerOf spells bookmark text 0).mono
  intro label refuses node same
  exact (Bool.or_eq_false_iff.1 (refuses node same)).1

theorem allowsNew_endsBookmark {spell : Term → QName} (spells : SpellsWords spell)
    (text : String) (id : Int) : AllowsNew (Refuses (·.endsBookmark id)) spell text := by
  apply (allowsNew_isMarkerOf spells "" text id).mono
  intro label refuses node same
  exact (Bool.or_eq_false_iff.1 (refuses node same)).2

/-! ## The site -/

namespace Site

/-- The kind of the parent that the placeholder of a site gets. -/
def placeholderLanding (site : Site) : Kind :=
  landing site.name.kind (placeholderFor site.inside)
    (site.inside.filter outlivesReplacement ++ site.stop :: site.right)

/-- What the placeholder of a site becomes in the next flat form. -/
def filling (site : Site) (spell : Term → QName) (text : String) : List Node :=
  flattenNode (finish spell text site.placeholderLanding (placeholderFor site.inside).regroup)

/-- A site with a placeholder becomes a site with the same markers, and with `middle` behind what
the placeholder becomes. -/
structure Renews (spell : Term → QName) (text : String) (site fresh : Site)
    (middle : List Node) : Prop where
  renewed_eq : renewed spell text site.withPlaceholder = fresh.holding fresh.inside
  start : fresh.start = renewed spell text site.start
  inside : fresh.inside = site.filling spell text ++ middle
  stop : fresh.stop = renewed spell text site.stop
  id : fresh.id = site.id
  turns : ∃ carry carry', Turns spell text [] site.left fresh.left carry ∧
    Turns spell text carry (site.inside.filter outlivesReplacement) middle carry'

section Renews

variable {spell : Term → QName} {text : String} {site fresh : Site} {middle : List Node}

theorem exists_renews (spells : SpellsWords spell) (text : String)
    (start : site.start.kind = .bookmarkStart) (stop : site.stop.kind = .bookmarkEnd)
    (other : site.name.kind ≠ .placeholder)
    (flat : ∀ child ∈ site.withPlaceholder.children, FlatSibling True child) :
    ∃ fresh middle, Renews spell text site fresh middle := by
  have startQuiet : Quiet site.start :=
    ⟨by simp [start], by simp [start], by simp [start]⟩
  have stopQuiet : Quiet site.stop := ⟨by simp [stop], by simp [stop], by simp [stop]⟩
  have startOther : site.start.isParagraphProps = false := by simp [isParagraphProps, start]
  have stopOther : site.stop.isParagraphProps = false := by simp [isParagraphProps, stop]
  have placeholderOther : (placeholderFor site.inside).isParagraph = false := rfl
  obtain ⟨left, carry, leftSame, leftTurns⟩ :=
    exists_reflow_append spells text site.name.kind [] site.left
      (site.start :: (placeholderFor site.inside ::
        (site.inside.filter outlivesReplacement ++ site.stop :: site.right)))
  obtain ⟨middle, carry', middleSame, middleTurns⟩ :=
    exists_reflow_append spells text site.name.kind carry
      (site.inside.filter outlivesReplacement) (site.stop :: site.right)
  refine ⟨⟨site.name, site.attrs, left, renewed spell text site.start,
    site.filling spell text ++ middle, renewed spell text site.stop,
    reflow spell text site.name.kind carry' site.right, site.id⟩, middle, ?_⟩
  constructor
  case turns => exact ⟨carry, carry', leftTurns, middleTurns⟩
  case renewed_eq =>
    rw [withPlaceholder, holding, children_element] at flat
    rw [withPlaceholder, holding, renewed_element spells other site.attrs flat, siblings,
      List.cons_append, leftSame, reflow_quiet spells _ startQuiet startOther,
      reflow_other placeholderOther (.inl rfl), middleSame,
      reflow_quiet spells _ stopQuiet stopOther, holding, siblings, List.append_assoc]
    rfl
  all_goals rfl

theorem Renews.noneAmong_left {accept : Node → Bool} (renews : Renews spell text site fresh middle)
    (byLabel : ByLabel accept) (allows : AllowsNew (Refuses accept) spell text)
    (free : (site.holding site.inside).PlaceholderFree) (none : NoneAmong accept site.left) :
    NoneAmong accept fresh.left := by
  rcases renews.turns with ⟨carry, carry', leftTurns, middleTurns⟩
  have leftFree := (forall_mem_siblings.1 (everyLabel_element.1 free).2).1
  exact (leftTurns.noneAmong byLabel allows (List.forall_mem_nil _) leftFree none).1

/-- Nothing that is accepted comes up before the end marker. -/
theorem Renews.noneAmong_front {accept : Node → Bool} (renews : Renews spell text site fresh middle)
    (spells : SpellsWords spell) (byLabel : ByLabel accept)
    (allows : AllowsNew (Refuses accept) spell text)
    (free : (site.holding site.inside).PlaceholderFree)
    (none : NoneAmong accept (site.left ++ site.start :: site.inside)) :
    NoneAmong accept (fresh.left ++ fresh.start :: fresh.inside) := by
  rcases renews.turns with ⟨carry, carry', leftTurns, middleTurns⟩
  obtain ⟨leftFree, startFree, insideFree, _, _⟩ :=
    forall_mem_siblings.1 (everyLabel_element.1 free).2
  rw [noneAmong_append, noneAmong_cons] at none
  rcases none with ⟨leftNone, startNone, insideNone⟩
  obtain ⟨leftStays, carried⟩ :=
    leftTurns.noneAmong byLabel allows (List.forall_mem_nil _) leftFree leftNone
  have startStays : ∀ inner ∈ fresh.start.selfAndDescendants, accept inner = false := by
    rw [renews.start]
    apply byLabel.everyLabel_iff.1
    apply everyLabel_renewed spells allows
    rw [fillIn_of_placeholderFree startFree]
    exact byLabel.everyLabel_iff.2 startNone
  have fillingStays : NoneAmong accept (site.filling spell text) := by
    apply byLabel.noneAmong_iff.2
    apply everyLabel_flattenNode
    apply everyLabel_finish_regroup spells allows
    rw [placeholderFor, fillIn_placeholder rfl]
    exact everyLabel_textRun allows (everyLabel_formatting (byLabel.noneAmong_iff.1 insideNone))
  have middleStays := middleTurns.noneAmong byLabel allows carried
    (fun node member => insideFree node (List.mem_filter.1 member).1)
    (fun node member => insideNone node (List.mem_filter.1 member).1)
  rw [noneAmong_append, noneAmong_cons, renews.inside, noneAmong_append]
  exact ⟨leftStays, startStays, fillingStays, middleStays.1⟩

/-- What outlives the replacement shows nothing in the next flat form. -/
theorem Renews.quiet (renews : Renews spell text site fresh middle)
    (free : (site.holding site.inside).PlaceholderFree) : ∀ node ∈ middle, Quiet node := by
  rcases renews.turns with ⟨carry, carry', leftTurns, middleTurns⟩
  obtain ⟨_, _, insideFree, _, _⟩ := forall_mem_siblings.1 (everyLabel_element.1 free).2
  apply middleTurns.quiet
  intro node member
  rcases List.mem_filter.1 member with ⟨among, outlives⟩
  constructor
  · intro run
    rw [outlivesReplacement, run] at outlives
    cases outlives
  · intro paragraph
    rw [outlivesReplacement, paragraph] at outlives
    cases outlives
  · exact (insideFree node among).self

/-- The new site is the first one again. -/
theorem Renews.marks {filled : Node} {bookmark : String} {path path' : Path} {root : Node}
    (renews : Renews spell text site fresh middle) (spells : SpellsWords spell)
    (marks : site.Marks root bookmark path) (free : (site.holding site.inside).PlaceholderFree)
    (reached : filled.Reaches (PassesBy (isMarkerOf bookmark site.id)) path'
      (renewed spell text site.withPlaceholder)) :
    fresh.Marks filled bookmark path' := by
  obtain ⟨_, startFree, _, stopFree, _⟩ := forall_mem_siblings.1 (everyLabel_element.1 free).2
  constructor
  case reached =>
    rw [renews.renewed_eq] at reached
    rw [renews.id]
    exact reached.mono fun _ _ => passes_iff.2
  case no_start =>
    exact renews.noneAmong_left (byLabel_startsBookmark bookmark)
      (allowsNew_startsBookmark spells bookmark text) free marks.no_start
  case no_stop =>
    rw [renews.id]
    exact renews.noneAmong_front spells (byLabel_endsBookmark site.id)
      (allowsNew_endsBookmark spells text site.id) free marks.no_stop
  case starts =>
    rw [renews.start, accept_renewed (byLabel_startsBookmark bookmark) startFree.self]
    exact marks.starts
  case markerId =>
    rw [renews.start, renews.id, markerId?_eq_of_label_eq (label_renewed spell text startFree.self)]
    exact marks.markerId
  case ends =>
    rw [renews.stop, renews.id, accept_renewed (byLabel_endsBookmark site.id) stopFree.self]
    exact marks.ends

end Renews

end Site

section Fills

variable {root filled : Node} {bookmark text : String} {site : Site} {path : Path}

/-- The site with the placeholder is reached by clear steps. -/
theorem Fills.clearSteps (fills : Fills root bookmark text filled site path)
    (free : root.flatten.PlaceholderFree)
    (opens : root.flatten.Reaches OpenStep path (site.holding site.inside)) :
    (root.flatten.replaceAt path site.withPlaceholder).Reaches
      (ClearStep (isMarkerOf bookmark site.id)) path site.withPlaceholder := by
  have steps := (fills.marks.reached.and opens).and (opens.everyLabel_steps free)
  have clear : root.flatten.Reaches (ClearStep (isMarkerOf bookmark site.id)) path
      (site.holding site.inside) := by
    apply steps.mono
    rintro left child ⟨⟨passes, opens⟩, leftFree, childFree⟩
    exact ⟨passes_iff.1 passes, opens, leftFree, childFree⟩
  have keeps : site.withPlaceholder.label = (site.holding site.inside).label := rfl
  apply clear.replaceAt keeps
  intro left child child' same step
  refine ⟨⟨step.passes_by.1, ?_⟩, step.opens.of_label_eq same, step.left_free, ?_⟩
  · rw [byLabel_isMarkerOf bookmark site.id child' child same, step.passes_by.2]
  · rw [kind_eq_of_label_eq same]
    exact step.child_free

/-- The new flat form has the markers of the bookmark with the filling between them, and nothing
else that shows. -/
theorem Fills.exists_renews (fills : Fills root bookmark text filled site path)
    (free : root.PlaceholderFree)
    (opens : root.flatten.Reaches OpenStep path (site.holding site.inside)) :
    ∃ fresh path' middle, Site.Renews root.spell text site fresh middle ∧
      fresh.Marks filled.flatten bookmark path' ∧ ∀ node ∈ middle, Quiet node := by
  have spells := spellsWords_spell root
  have flatFree := everyLabel_flatten free
  have siteFree := fills.marks.reached.everyLabel flatFree
  have heldKind : (root.flatten.replaceAt path site.withPlaceholder).kind ≠ .placeholder := by
    rw [Site.withPlaceholder, kind_eq_of_label_eq (fills.marks.label_replaceAt _)]
    exact flatFree.self
  obtain ⟨⟨path', way⟩, siteFlat⟩ := (fills.clearSteps flatFree opens).exists_renewed spells
    (byLabel_isMarkerOf bookmark site.id) (allowsNew_isMarkerOf spells bookmark text site.id)
    heldKind
    (fills.marks.flatSibling_withPlaceholder fun node member => flatSibling_of_mem_flatten member)
  obtain ⟨fresh, middle, renews⟩ := Site.exists_renews spells text fills.marks.start_kind
    fills.marks.stop_kind siteFree.self siteFlat
  refine ⟨fresh, path', middle, renews, ?_, renews.quiet siteFree⟩
  rw [fills.result]
  exact renews.marks spells fills.marks siteFree way

end Fills

end Bookmark

end TemplateFill
