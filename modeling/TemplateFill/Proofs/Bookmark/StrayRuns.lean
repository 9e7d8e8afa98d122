import TemplateFill.Proofs.Bookmark.Steady

/-!
# Stray runs

No run may be the child of an element that holds paragraphs, or of a table.  In bodies the last pass
of a substitution sees to this.  In cells and text boxes it does not: there a run in front of the
start marker is left without a paragraph when the range takes its mark away and no other follows.
And a placeholder between the rows of a table becomes a run there.
-/

namespace TemplateFill

/-- Whether no run may be the child of an element of this kind. -/
def Kind.refusesRuns (outer : Kind) : Bool := outer.holdsParagraphs || outer == .table

namespace Node

/-- No run of a document stands where paragraphs or rows should. -/
def NoStrayRuns (root : Node) : Prop :=
  EveryEdge (fun outer inner => inner = .run → outer.refusesRuns = false) root

instance : DecidablePred NoStrayRuns := fun root =>
  inferInstanceAs (Decidable (∀ outer ∈ root.selfAndDescendants, ∀ child ∈ outer.children,
    child.kind = .run → outer.kind.refusesRuns = false))

/-- A run may stand in a body, until the last pass. -/
def RunsSeated (outer inner : Kind) : Prop :=
  inner = .run → outer.refusesRuns = true → outer = .body

/-- The same, and a placeholder does not become a run in a table. -/
def Settles (outer inner : Kind) : Prop :=
  RunsSeated outer inner ∧ (inner = .placeholder → outer ≠ .table)

/-- No run stands between rows. -/
def OffTables (outer inner : Kind) : Prop := inner = .run → outer ≠ .table

theorem RunsSeated.offTables {outer inner : Kind} (seated : RunsSeated outer inner) :
    OffTables outer inner := by
  rintro run rfl
  cases seated run rfl

theorem allowsOthers_settles : AllowsOthers Settles :=
  fun _ _ noPlaceholder noRun =>
    ⟨fun run => absurd run noRun, fun same => absurd same noPlaceholder⟩

theorem permitsParagraphs_settles : PermitsParagraphs Settles where
  below outer := allowsOthers_settles outer _ nofun nofun
  inside _ := ⟨fun _ => nofun, fun _ => nofun⟩

theorem allowsOthers_runsSeated : AllowsOthers RunsSeated :=
  fun _ _ _ noRun run => absurd run noRun

theorem permitsParagraphs_runsSeated : PermitsParagraphs RunsSeated where
  below outer := allowsOthers_runsSeated outer _ nofun nofun
  inside _ _ := nofun

theorem allowsOthers_offTables : AllowsOthers OffTables :=
  fun _ _ _ noRun run => absurd run noRun

theorem permitsParagraphs_offTables : PermitsParagraphs OffTables where
  below outer := allowsOthers_offTables outer _ nofun nofun
  inside _ _ := nofun

section Passes

variable {allowed : Kind → Kind → Prop} {spell : Term → QName} {text : String}

/-! ## The last pass -/

/-- The last pass leaves no run in a body, and changes no other parents of runs. -/
theorem everyEdge_wrapRunsIn_iff (spells : SpellsWords spell) (permits : PermitsParagraphs allowed)
    {node : Node} :
    EveryEdge (fun outer inner => allowed outer inner ∧ (outer = .body → inner ≠ .run))
        (wrapRunsIn spell node) ↔
      EveryEdge (fun outer inner => allowed outer inner ∨ outer = .body ∧ inner = .run) node := by
  induction node using treeInduction with
  | element name attrs children ih =>
      rw [wrapRunsIn, wrapRunsAll_eq_map, everyEdge_element, everyEdge_element, EdgesBelow,
        EdgesBelow, List.forall_mem_map]
      refine forall_congr' fun child => forall_congr' fun member => ?_
      split
      · rename_i wrapped
        rw [everyEdge_element, kind_element, spells.paragraph, EdgesBelow,
          List.forall_mem_singleton, ih child member]
        exact iff_of_eq (by simp [permits.below, permits.inside, wrapped])
      · rename_i other
        rw [kind_wrapRunsIn, ih child member]
        refine and_congr_left fun _ => ?_
        rw [or_iff_left other]
        exact and_iff_left fun body run => other ⟨body, run⟩
  | text => exact iff_of_true everyEdge_text everyEdge_text
  | comment => exact iff_of_true everyEdge_comment everyEdge_comment

theorem noStrayRuns_wrapRunsIn_iff (spells : SpellsWords spell) {node : Node} :
    NoStrayRuns (wrapRunsIn spell node) ↔ EveryEdge RunsSeated node := by
  have permits : PermitsParagraphs fun outer inner => inner = .run → outer.refusesRuns = false :=
    ⟨fun _ => nofun, fun _ _ => rfl⟩
  have stray : (fun outer inner : Kind => inner = .run → outer.refusesRuns = false) =
      fun outer inner => (inner = .run → outer.refusesRuns = false) ∧
        (outer = .body → inner ≠ .run) := by
    funext outer inner
    refine propext ⟨fun fits => ⟨fits, ?_⟩, fun both => both.1⟩
    rintro rfl run
    cases fits run
  have seated : RunsSeated = fun outer inner =>
      (inner = .run → outer.refusesRuns = false) ∨ outer = .body ∧ inner = .run := by
    funext outer inner
    apply propext
    cases refuses : outer.refusesRuns <;> by_cases run : inner = .run <;>
      simp [RunsSeated, refuses, run]
  rw [NoStrayRuns, stray, everyEdge_wrapRunsIn_iff spells permits, ← seated]

theorem noBodyRuns_wrapRunsIn (spells : SpellsWords spell) (node : Node) :
    ∀ outer ∈ (wrapRunsIn spell node).selfAndDescendants, outer.kind = .body →
      ∀ child ∈ outer.children, child.kind ≠ .run := by
  have permits : PermitsParagraphs fun _ _ => True := ⟨fun _ => trivial, fun _ => trivial⟩
  have edges : EveryEdge (fun outer inner => True ∧ (outer = .body → inner ≠ .run))
      (wrapRunsIn spell node) :=
    (everyEdge_wrapRunsIn_iff spells permits).2 fun _ _ _ _ => .inl trivial
  exact fun outer member body child isChild => (edges outer member child isChild).2 body

/-! ## The pass before -/

private theorem everyEdge_of_textRun {formatting : List Node}
    (edges : EveryEdge allowed (textRun spell formatting text)) :
    ∀ node ∈ formatting, EveryEdge allowed node := by
  rw [textRun, everyEdge_element, edgesBelow_append] at edges
  exact fun node member => (edges.1 node member).2

/-- Where placeholders are not in tables, resolving them leaves runs where they may be. -/
theorem everyEdge_resolveIn (spells : SpellsWords spell) {node : Node}
    (edges : EveryEdge Settles node) (outer : Kind) :
    EveryEdge RunsSeated (resolveIn spell text outer node) := by
  induction node using treeInduction generalizing outer with
  | element name attrs children ih =>
      rw [everyEdge_element] at edges
      by_cases placeholder : name.kind = .placeholder
      · have run : EveryEdge RunsSeated (textRun spell children text) := by
          refine everyEdge_textRun spells (fun _ _ => nofun) (fun _ _ => nofun) ?_
          exact fun child member => (edges child member).2.mono fun _ _ settles => settles.1
        rw [resolveIn, if_pos placeholder]
        split
        · rw [everyEdge_element, spells.paragraph]
          exact List.forall_mem_singleton.2 ⟨permitsParagraphs_runsSeated.inside _, run⟩
        · exact run
      · rw [resolveIn, if_neg placeholder, everyEdge_element, resolveAll_eq_map]
        refine List.forall_mem_map.2 fun child member => ?_
        rcases edges child member with ⟨settles, below⟩
        refine ⟨?_, ih child member below name.kind⟩
        by_cases replaced : child.kind = .placeholder
        · rw [kind_resolveIn_placeholder spells text name.kind replaced]
          have noTable := settles.2 replaced
          intro run refuses
          cases held : name.kind.holdsParagraphs with
          | true =>
              rw [held] at run
              cases run
          | false => simp [Kind.refusesRuns, held, noTable] at refuses
        · rw [kind_resolveIn replaced]
          exact settles.1
  | text => exact everyEdge_text
  | comment => exact everyEdge_comment

/-- A placeholder is resolved to a run, with or without a paragraph around it. -/
private theorem everyEdge_textRun_of_resolveIn {name : QName} {attrs : List Attr}
    {children : List Node} {outer : Kind} (placeholder : name.kind = .placeholder)
    (edges : EveryEdge RunsSeated (resolveIn spell text outer (.element name attrs children))) :
    EveryEdge RunsSeated (textRun spell children text) := by
  rw [resolveIn, if_pos placeholder] at edges
  split at edges
  · rw [everyEdge_element] at edges
    exact (List.forall_mem_singleton.1 edges).2
  · exact edges

/-- Resolving placeholders takes no run away. -/
theorem everyEdge_of_resolveIn {node : Node} {outer : Kind}
    (edges : EveryEdge RunsSeated (resolveIn spell text outer node)) :
    EveryEdge RunsSeated node := by
  induction node using treeInduction generalizing outer with
  | element name attrs children ih =>
      rw [everyEdge_element]
      by_cases placeholder : name.kind = .placeholder
      · have run := everyEdge_textRun_of_resolveIn placeholder edges
        rw [placeholder]
        exact fun child member => ⟨fun _ refuses => absurd refuses (by decide),
          everyEdge_of_textRun run child member⟩
      · rw [resolveIn, if_neg placeholder, everyEdge_element, resolveAll_eq_map] at edges
        have each := List.forall_mem_map.1 edges
        intro child member
        refine ⟨?_, ih child member (each child member).2⟩
        by_cases replaced : child.kind = .placeholder
        · rw [replaced]
          exact fun isRun => absurd isRun (by decide)
        · have seated := (each child member).1
          rwa [kind_resolveIn replaced] at seated
  | text => exact everyEdge_text
  | comment => exact everyEdge_comment

/-- A placeholder in a table becomes a run there. -/
theorem everyEdge_fillIn_of_resolveIn (spells : SpellsWords spell) {node : Node} {outer : Kind}
    (edges : EveryEdge RunsSeated (resolveIn spell text outer node)) :
    EveryEdge OffTables (fillIn spell text node) := by
  induction node using treeInduction generalizing outer with
  | element name attrs children ih =>
      by_cases placeholder : name.kind = .placeholder
      · have run := everyEdge_textRun_of_resolveIn placeholder edges
        rw [fillIn_placeholder placeholder]
        exact run.mono fun _ _ => RunsSeated.offTables
      · rw [resolveIn, if_neg placeholder, everyEdge_element, resolveAll_eq_map] at edges
        have each := List.forall_mem_map.1 edges
        rw [fillIn_element placeholder, everyEdge_element]
        refine List.forall_mem_map.2 fun child member => ?_
        refine ⟨?_, ih child member (each child member).2⟩
        intro run table
        have seated := (each child member).1
        by_cases replaced : child.kind = .placeholder
        · rw [kind_resolveIn_placeholder spells text name.kind replaced, table] at seated
          cases seated rfl rfl
        · rw [kind_fillIn spells, if_neg replaced] at run
          rw [kind_resolveIn replaced, table] at seated
          cases seated run rfl
  | text => exact everyEdge_text
  | comment => exact everyEdge_comment

end Passes

end Node

namespace Bookmark

open Node

/-- A substitution leaves a run where it may not stand: the markers of the bookmark are siblings in
a document in the flat form, the first block-level node behind what is kept of the range is no
paragraph mark, and the markers are among the rows of a table, or in a cell or a text box with a run
in front of them that no block-level node separates from them. -/
def StrandsRuns (flat : Node) (pair : MarkerPair) : Prop :=
  ∃ parent, flat.at? pair.parent = some parent ∧
    firstGroupMarked ((pair.between parent.children).filter outlivesReplacement ++
      parent.children.drop pair.last) = false ∧
    (parent.kind = .table ∨ (parent.kind = .tableCell ∨ parent.kind = .textBoxContent) ∧
      ∃ before run after, parent.children.take pair.first = before ++ run :: after ∧
        run.kind = .run ∧ AllInline after)

theorem Site.Marks.strandsRuns_iff {root : Node} {bookmark : String} {site : Site} {path : Path}
    (marks : site.Marks root bookmark path) :
    StrandsRuns root (site.pair path) ↔
      firstGroupMarked (site.inside.filter outlivesReplacement ++ site.stop :: site.right) = false ∧
        (site.name.kind = .table ∨ (site.name.kind = .tableCell ∨
          site.name.kind = .textBoxContent) ∧
            ∃ before run after, site.left = before ++ run :: after ∧ run.kind = .run ∧
              AllInline after) := by
  have found : root.at? (site.pair path).parent = some (site.holding site.inside) :=
    marks.reached.at?_eq
  have front : (site.siblings site.inside).take (site.pair path).first = site.left := List.take_left
  rw [StrandsRuns, found]
  simp only [Option.some.injEq, exists_eq_left', Site.holding, children_element, kind_element,
    site.between_pair, site.drop_siblings, front]

section Fills

variable {root filled : Node} {bookmark text : String} {site : Site} {path : Path}

/-- A site outside paragraph properties is reached by open steps. -/
theorem Fills.opens (fills : Fills root bookmark text filled site path)
    (outside : MarkersOutsideProps root) :
    root.flatten.Reaches OpenStep path (site.holding site.inside) :=
  fills.openSteps (fills.marks.reached.clearOfProps_parent outside.flatten
    (.inl fills.marks.start_kind))

variable (fills : Fills root bookmark text filled site path) (free : root.PlaceholderFree)
  (outside : MarkersOutsideProps root) (edges : EveryEdge Settles root.flatten.regroup)

include fills free in
private theorem Fills.inside_free : ∀ node ∈ site.inside, node.kind ≠ .placeholder := by
  intro node member
  have below := fills.marks.reached.everyLabel (everyLabel_flatten free)
  exact (below.child (by simp [Site.holding, Site.siblings, member])).self

include fills free outside edges

/-- Where no run is stranded, runs and placeholders are in their places before the last passes. -/
theorem Fills.everyEdge_settles (kept : ¬ StrandsRuns root.flatten (site.pair path)) :
    EveryEdge Settles (root.flatten.replaceAt path site.withPlaceholder).regroup := by
  have permits := permitsParagraphs_settles
  have others := allowsOthers_settles
  have opens := fills.opens outside
  have inner := opens.everyEdge_regroup permits edges
  have keeps : site.withPlaceholder.label = (site.holding site.inside).label := rfl
  have refills := Site.refills_placeholder permits others (fills.inside_free free) inner
  rw [everyEdge_regroup_replaceAt_iff permits opens keeps edges]
  refine (refills.everyEdge_iff permits others fills.marks.start_kind inner).2 ?_
  cases marked : firstGroupMarked
      (site.inside.filter outlivesReplacement ++ site.stop :: site.right) with
  | true => exact .inl rfl
  | false =>
      rw [fills.marks.strandsRuns_iff, marked] at kept
      have noTable : site.name.kind ≠ .table := fun table => kept ⟨rfl, .inl table⟩
      refine .inr ⟨⟨nofun, fun _ => noTable⟩, ?_⟩
      intro before run after whole inline
      refine ⟨fun isRun refuses => ?_, fun _ => noTable⟩
      have behind : AllInline after := (List.forall_mem_cons.1 inline).2
      have stranded : ¬ (site.name.kind = .tableCell ∨ site.name.kind = .textBoxContent) :=
        fun held => kept ⟨rfl, .inr ⟨held, before, run, after, whole, isRun, behind⟩⟩
      rw [Kind.refusesRuns, Kind.holdsParagraphs.eq_def] at refuses
      cases kind : site.name.kind <;> simp_all

/-- A stranded run stays in its place through the last passes. -/
theorem Fills.not_strandsRuns (noStrays : NoStrayRuns filled) :
    ¬ StrandsRuns root.flatten (site.pair path) := by
  have spells := spellsWords_spell root
  have opens := fills.opens outside
  have insideFree := fills.inside_free free
  have starts := fills.marks.start_kind
  rw [fills.result, noStrayRuns_wrapRunsIn_iff spells] at noStrays
  rw [fills.marks.strandsRuns_iff]
  rintro ⟨unmarked, table | ⟨holder, before, run, after, whole, isRun, inline⟩⟩
  · -- The placeholder itself becomes a run among the rows.
    have permits := permitsParagraphs_offTables
    have others := allowsOthers_offTables
    have settled := edges.mono fun _ _ settles => settles.1.offTables
    have inner := opens.everyEdge_regroup permits settled
    have keeps : (site.withRun root.spell text).label = (site.holding site.inside).label := rfl
    have refills := Site.refills_run permits others insideFree inner spells text
      (fun _ _ => nofun) (fun _ _ => nofun)
    have whole := everyEdge_fillIn_of_resolveIn spells noStrays
    rw [← regroup_fillIn spells, fills.marks.fillIn_eq (everyLabel_flatten free),
      everyEdge_regroup_replaceAt_iff permits opens keeps settled] at whole
    rcases (refills.everyEdge_iff permits others starts inner).1 whole with marked | ⟨off, _⟩
    · rw [unmarked] at marked
      cases marked
    · exact off spells.run table
  · have permits := permitsParagraphs_runsSeated
    have others := allowsOthers_runsSeated
    have settled := edges.mono fun _ _ settles => settles.1
    have inner := opens.everyEdge_regroup permits settled
    have keeps : site.withPlaceholder.label = (site.holding site.inside).label := rfl
    have refills := Site.refills_placeholder permits others insideFree inner
    have seated := everyEdge_of_resolveIn noStrays
    rw [everyEdge_regroup_replaceAt_iff permits opens keeps settled] at seated
    rcases (refills.everyEdge_iff permits others starts inner).1 seated with marked | ⟨_, left⟩
    · rw [unmarked] at marked
      cases marked
    · have runInline : run.isBlockLevel = false := by
        rw [isBlockLevel, isRun]
      have body := left before run after whole (List.forall_mem_cons.2 ⟨runInline, inline⟩) isRun
      rcases holder with cell | box
      · rw [cell] at body
        cases body rfl
      · rw [box] at body
        cases body rfl

end Fills

section Substitute

variable {root filled : Node} {revised : Bool} {bookmark text : String} {pair : MarkerPair}

/-- No substitution leaves a run in a body, whatever the document looks like. -/
theorem noBodyRuns_of_substitute (success : substitute root revised bookmark text = .ok filled) :
    ∀ outer ∈ filled.selfAndDescendants, outer.kind = .body →
      ∀ child ∈ outer.children, child.kind ≠ .run := by
  obtain ⟨pair, located⟩ := exists_located_of_substitute success
  rw [substitute_of_located text (valid_of_substitute success) located] at success
  rw [← Except.ok.inj success]
  exact noBodyRuns_wrapRunsIn (spellsWords_spell _) _

/-- In a document of inline paragraphs without stray runs, in which all markers are outside
paragraph properties, a substitution leaves no run in a body, and no stray run at all just where it
strands none at its markers.  The document is a `Node`, so that nothing is below its texts and
comments. -/
theorem noStrayRuns_of_substitute_iff (success : substitute root revised bookmark text = .ok filled)
    (located : locate root.flatten bookmark = .ok pair) (free : root.PlaceholderFree)
    (outside : MarkersOutsideProps root) (inline : InlineParagraphs root.children)
    (noStrays : NoStrayRuns root) :
    (∀ outer ∈ filled.selfAndDescendants, outer.kind = .body →
        ∀ child ∈ outer.children, child.kind ≠ .run) ∧
      (NoStrayRuns filled ↔ ¬ StrandsRuns root.flatten pair) := by
  obtain ⟨site, path, fills⟩ := exists_fills free success
  obtain rfl : site.pair path = pair := Except.ok.inj (fills.located.symm.trans located)
  have spells := spellsWords_spell root
  have settled : EveryEdge Settles root := by
    intro outer member child isChild
    refine ⟨fun run refuses => ?_, fun placeholder => ?_⟩
    · rw [noStrays outer member child isChild run] at refuses
      cases refuses
    · exact absurd placeholder (free child (mem_selfAndDescendants_child member isChild))
  have edges := everyEdge_regroup_flatten permitsParagraphs_settles settled inline
  refine ⟨noBodyRuns_of_substitute success, fills.not_strandsRuns free outside edges, ?_⟩
  intro kept
  rw [fills.result, noStrayRuns_wrapRunsIn_iff spells]
  exact everyEdge_resolveIn spells (fills.everyEdge_settles free outside edges kept) .generic

end Substitute

/-- The sample has no stray runs, and none is stranded in it. -/
theorem not_strandsRuns_sample :
    substitute sample false "b" "new" = .ok sampleFilled ∧
      ¬ StrandsRuns sample.flatten samplePair := by
  have success : substitute sample false "b" "new" = .ok sampleFilled := rfl
  have free : sample.PlaceholderFree :=
    show ∀ inner ∈ sample.selfAndDescendants, inner.label.kind ≠ .placeholder by decide
  have outside : MarkersOutsideProps sample :=
    show ∀ props ∈ sample.selfAndDescendants, props.isParagraphProps = true →
      ∀ inner ∈ props.descendants, inner.kind ≠ .bookmarkStart ∧ inner.kind ≠ .bookmarkEnd by decide
  have noStrays : NoStrayRuns sample := by decide
  exact ⟨success,
    (noStrayRuns_of_substitute_iff success rfl free outside (by decide) noStrays).2.1 (by decide)⟩

/-- A table in a document. -/
def tableOf (rows : List Node) : Node :=
  wordElement "document" [] [wordElement "body" [] [wordElement "tbl" [] rows]]

/-- A bookmark begins in the paragraph of a cell and ends behind the paragraph. -/
def openedInCell : Node :=
  tableOf [wordElement "tr" [] [wordElement "tc" []
    [wordElement "p" [] [boldRun "one", sampleStart, boldRun "two"], sampleStop]]]

/-- A bookmark around the row of a table. -/
def aroundRow : Node :=
  tableOf
    [sampleStart, wordElement "tr" [] [wordElement "tc" [] [wordElement "p" [] []]], sampleStop]

/-- The run in front of the marker is left to the cell, and the new run to the table. -/
theorem not_noStrayRuns_of_substitute :
    (NoStrayRuns openedInCell ∧ ∃ filled, substitute openedInCell false "b" "new" = .ok filled ∧
        ¬ NoStrayRuns filled) ∧
      NoStrayRuns aroundRow ∧ ∃ filled, substitute aroundRow false "b" "new" = .ok filled ∧
        ¬ NoStrayRuns filled := by
  refine ⟨⟨by decide, _, rfl, by decide⟩, by decide, _, rfl, by decide⟩

end Bookmark

end TemplateFill
