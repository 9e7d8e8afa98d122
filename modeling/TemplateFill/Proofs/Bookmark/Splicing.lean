import TemplateFill.Proofs.Bookmark.Lifted
import TemplateFill.Proofs.Bookmark.SiteEdges

/-!
# The effect of a substitution in the flat form

Where a bookmark ends in a paragraph and no run stands in a body, no pass of a substitution has
to make a paragraph.  In the flat form the document is then the one with a run in the place of
what is between the markers, and nothing else has changed.
-/

namespace TemplateFill

/-- A child that no pass puts a paragraph around. -/
def Kind.NeedsNoParagraph (outer inner : Kind) : Prop :=
  (outer.holdsParagraphs = true → inner ≠ .placeholder) ∧ (outer = .body → inner ≠ .run)

namespace Node

open Kind (NeedsNoParagraph)

/-- Nodes that are neither placeholders nor runs need no paragraph anywhere. -/
theorem needsNoParagraph_of_ne {inner : Kind} (noPlaceholder : inner ≠ .placeholder)
    (noRun : inner ≠ .run) (outer : Kind) : NeedsNoParagraph outer inner :=
  ⟨fun _ => noPlaceholder, fun _ => noRun⟩

/-- Below a node that holds no paragraphs nothing needs one. -/
theorem needsNoParagraph_of_not_holds {outer : Kind} (unheld : outer.holdsParagraphs = false)
    (inner : Kind) : NeedsNoParagraph outer inner := by
  constructor
  · intro held
    rw [unheld] at held
    cases held
  · intro body
    rw [body] at unheld
    cases unheld

theorem allowsOthers_needsNoParagraph : AllowsOthers NeedsNoParagraph :=
  fun outer _ noPlaceholder noRun => needsNoParagraph_of_ne noPlaceholder noRun outer

theorem permitsParagraphs_needsNoParagraph : PermitsParagraphs NeedsNoParagraph where
  below := needsNoParagraph_of_ne (by decide) (by decide)
  inside := needsNoParagraph_of_not_holds rfl

section Passes

variable {spell : Term → QName} {text : String}

theorem wrapRunsIn_eq_self {node : Node} (edges : EveryEdge NeedsNoParagraph node) :
    wrapRunsIn spell node = node := by
  induction node using treeInduction with
  | element name attrs children ih =>
      rw [everyEdge_element] at edges
      have same : ∀ child ∈ children,
          (if name.kind = .body ∧ child.kind = .run then
            element (spell Term.paragraph) [] [wrapRunsIn spell child]
          else wrapRunsIn spell child) = child := by
        intro child member
        obtain ⟨fits, below⟩ := edges child member
        rw [if_neg fun ⟨body, run⟩ => fits.2 body run, ih child member below]
      rw [wrapRunsIn, wrapRunsAll_eq_map, List.map_congr_left same, List.map_id']
  | text | comment => rfl

/-- Where nothing needs a paragraph the last two passes only turn placeholders into runs. -/
theorem wrapRunsIn_resolveIn (spells : SpellsWords spell) {node : Node}
    (edges : EveryEdge NeedsNoParagraph node) {outer : Kind}
    (unheld : outer.holdsParagraphs = true → node.kind ≠ .placeholder) :
    wrapRunsIn spell (resolveIn spell text outer node) = fillIn spell text node := by
  induction node using treeInduction generalizing outer with
  | element name attrs children ih =>
      rw [everyEdge_element] at edges
      by_cases placeholder : name.kind = .placeholder
      · have noHolder : ¬ outer.holdsParagraphs = true := fun held => unheld held placeholder
        rw [resolveIn, if_pos placeholder, if_neg noHolder, fillIn_placeholder placeholder]
        exact wrapRunsIn_eq_self (everyEdge_textRun spells (needsNoParagraph_of_not_holds rfl)
          (needsNoParagraph_of_not_holds rfl) fun node member => (edges node member).2)
      · have same : ∀ child ∈ children,
            finish spell text name.kind child = fillIn spell text child := by
          intro child member
          obtain ⟨fits, below⟩ := edges child member
          have noRun : ¬ (name.kind = .body ∧
              (resolveIn spell text name.kind child).kind = .run) := by
            rintro ⟨body, run⟩
            have other := fits.1 (by rw [body]; rfl)
            rw [kind_resolveIn other] at run
            exact fits.2 body run
          rw [finish, if_neg noRun, ih child member below fits.1]
        rw [wrapRunsIn_resolveIn_element placeholder, fillIn_element placeholder,
          List.map_congr_left same]
  | text | comment => rfl

end Passes

end Node

namespace Bookmark

open Node
open Kind (NeedsNoParagraph)

/-- The end marker of a pair is a child of a paragraph below the root of the document, outside
paragraph properties. -/
def EndsInParagraph (root : Node) (pair : MarkerPair) : Prop :=
  ∃ stop, stop.kind = .bookmarkEnd ∧
    InParagraph stop root.children (pair.parent ++ [pair.last])

/-- What outlives the replacement is inline, if there are neither chunks nor cell properties. -/
private theorem inline_of_outlives {node : Node} (outlives : node.outlivesReplacement = true)
    (control : node.kind ≠ .contentControl) (chunk : node.kind ≠ .altChunk)
    (cell : node.kind ≠ .tableCellProps) : node.isBlockLevel = false := by
  rw [outlivesReplacement] at outlives
  rw [isBlockLevel]
  cases kind : node.kind <;> simp_all

section Fills

variable {root filled : Node} {bookmark text : String} {site : Site} {path : Path}

theorem Fills.inline_survivors (fills : Fills root bookmark text filled site path)
    (range : ∀ node ∈ site.inside, node.kind ≠ .altChunk ∧ node.kind ≠ .tableCellProps) :
    AllInline (site.inside.filter outlivesReplacement) := by
  intro node member
  rcases List.mem_filter.1 member with ⟨among, outlives⟩
  obtain ⟨chunk, cell⟩ := range node among
  have control := fills.marks.reached.everyLabel_children fills.no_controls node
    (by simp [Site.holding, Site.siblings, among])
  exact inline_of_outlives outlives control.self chunk cell

/-- Where nothing needs a paragraph the result is the regrouped flat form with the run in it. -/
theorem Fills.eq_regroup (fills : Fills root bookmark text filled site path)
    (free : root.PlaceholderFree)
    (edges : EveryEdge NeedsNoParagraph
      (root.flatten.replaceAt path site.withPlaceholder).regroup) :
    filled = (root.flatten.replaceAt path (site.withRun root.spell text)).regroup := by
  have spells := spellsWords_spell root
  have unheld : Kind.generic.holdsParagraphs = true →
      (root.flatten.replaceAt path site.withPlaceholder).regroup.kind ≠ .placeholder := by
    intro held
    cases held
  rw [fills.result, wrapRunsIn_resolveIn spells edges unheld, ← regroup_fillIn spells,
    fills.marks.fillIn_eq (everyLabel_flatten free)]

/-- The end marker of a bookmark that ends in a paragraph stands before the mark of that
paragraph, and the way to it stays clear of paragraph properties. -/
theorem EndsInParagraph.marked (ends : EndsInParagraph root (site.pair path))
    (stable : root.flatten.regroup = root) (marks : site.Marks root.flatten bookmark path) :
    root.flatten.Reaches (fun _ child => child.isParagraphProps = false) path
        (site.holding site.inside) ∧
      firstGroupMarked (site.stop :: site.right) = true := by
  rcases ends with ⟨stop, _, lifted⟩
  have markedAt := lifted.markedAt (regroup_flatten_eq_self_iff.1 stable).2
  rw [← children_flatten] at markedAt
  obtain ⟨way, marked⟩ := markedAt.reaches marks.reached
  rw [Site.holding, children_element, site.drop_siblings] at marked
  exact ⟨way, marked⟩

theorem everyEdge_of_bodies (free : root.PlaceholderFree)
    (bodies : ∀ outer ∈ root.selfAndDescendants, outer.kind = .body →
      ∀ child ∈ outer.children, child.kind ≠ .run) : EveryEdge NeedsNoParagraph root := by
  intro outer member child isChild
  constructor
  · intro _
    exact free child (mem_selfAndDescendants_child member isChild)
  · intro body
    exact bodies outer member body child isChild

/-- A placeholder before the mark of a paragraph gets into that paragraph. -/
theorem Site.Marks.everyEdge_regroup (marks : site.Marks root.flatten bookmark path)
    (opens : root.flatten.Reaches OpenStep path (site.holding site.inside))
    (stable : root.flatten.regroup = root) (free : root.PlaceholderFree)
    (edges : EveryEdge NeedsNoParagraph root)
    (marked : firstGroupMarked (site.stop :: site.right) = true)
    (inline : AllInline (site.inside.filter outlivesReplacement)) :
    EveryEdge NeedsNoParagraph (root.flatten.replaceAt path site.withPlaceholder).regroup := by
  have insideFree : ∀ node ∈ site.inside, node.kind ≠ .placeholder := by
    intro node member
    have below := marks.reached.everyLabel (everyLabel_flatten free)
    exact (below.child (by simp [Site.holding, Site.siblings, member])).self
  have permits := permitsParagraphs_needsNoParagraph
  have others := allowsOthers_needsNoParagraph
  have survivorsMarked : firstGroupMarked
      (site.inside.filter outlivesReplacement ++ site.stop :: site.right) = true := by
    rw [firstGroupMarked_append_inline inline, marked]
  rw [← stable] at edges
  have inner := opens.everyEdge_regroup permits edges
  have keeps : site.withPlaceholder.label = (site.holding site.inside).label := rfl
  rw [everyEdge_regroup_replaceAt_iff permits opens keeps edges]
  exact ((Site.refills_placeholder permits others insideFree inner).everyEdge_iff permits others
    marks.start_kind inner).2 (.inl survivorsMarked)

/-- The placeholder of a bookmark that ends in a paragraph gets into that paragraph. -/
private theorem Fills.everyEdge_regroup (fills : Fills root bookmark text filled site path)
    (stable : root.flatten.regroup = root)
    (bodies : ∀ outer ∈ root.selfAndDescendants, outer.kind = .body →
      ∀ child ∈ outer.children, child.kind ≠ .run)
    (free : root.PlaceholderFree) (ends : EndsInParagraph root (site.pair path))
    (inline : AllInline (site.inside.filter outlivesReplacement)) :
    EveryEdge NeedsNoParagraph (root.flatten.replaceAt path site.withPlaceholder).regroup := by
  obtain ⟨way, marked⟩ := ends.marked stable fills.marks
  exact fills.marks.everyEdge_regroup (fills.openSteps way) stable free
    (everyEdge_of_bodies free bodies) marked inline

/-- Where a document comes back from its flat form, has its properties in paragraphs and no run
in a body, a substitution of a bookmark that ends in a paragraph puts a run in the place of what
is between the markers, and changes nothing else in the flat form.  The document is a `Node`, so
that nothing is below its texts and comments. -/
theorem flatten_of_substitute {revised : Bool} {pair : MarkerPair}
    (success : substitute root revised bookmark text = .ok filled)
    (located : locate root.flatten bookmark = .ok pair)
    (stable : root.flatten.regroup = root) (placed : root.PropsInParagraphs)
    (bodies : ∀ outer ∈ root.selfAndDescendants, outer.kind = .body →
      ∀ child ∈ outer.children, child.kind ≠ .run)
    (free : root.PlaceholderFree) (ends : EndsInParagraph root pair)
    (range : ∀ node ∈ root.flatten.rangeOf pair,
      node.kind ≠ .altChunk ∧ node.kind ≠ .tableCellProps) :
    ∃ run, IsRunOf root.spell (firstFormatting? (root.flatten.rangeOf pair)).toList text run ∧
      filled.flatten = root.flatten.splice pair run := by
  obtain ⟨site, path, fills⟩ := exists_fills free success
  obtain rfl : site.pair path = pair := Except.ok.inj (fills.located.symm.trans located)
  rw [rangeOf_pair fills.marks.reached] at range
  have edges := fills.everyEdge_regroup stable bodies free ends (fills.inline_survivors range)
  have flat : ∀ node ∈ (root.flatten.replaceAt path (site.withRun root.spell text)).children,
      FlatSibling False node :=
    fills.marks.flatSibling_withRun (spellsWords_spell root) fun node member =>
      flatSibling_of_propsInParagraphs placed member
  refine ⟨_, isRunOf_textRun root _ text, ?_⟩
  rw [fills.eq_regroup free edges, flatten_regroup flat, fills.marks.splice_eq]

end Fills

theorem flatten_sampleFilled :
    substitute sample false "b" "new" = .ok sampleFilled ∧
      ∃ run, IsRunOf sample.spell (firstFormatting? (sample.flatten.rangeOf samplePair)).toList
        "new" run ∧ sampleFilled.flatten = sample.flatten.splice samplePair run := by
  have success : substitute sample false "b" "new" = .ok sampleFilled := rfl
  have placed : sample.PropsInParagraphs :=
    show (∀ child ∈ sample.children, child.isParagraphProps = false) ∧
      ∀ inner ∈ sample.outsideProps, inner.isParagraph = false →
        ∀ child ∈ inner.children, child.isParagraphProps = false by decide
  have free : sample.PlaceholderFree :=
    show ∀ inner ∈ sample.selfAndDescendants, inner.label.kind ≠ .placeholder by decide
  have lifted : InParagraph sampleStop
      ([wordElement "p" [] [wordElement "pPr" [] [], sampleStart, boldRun "one"]] ++
        .element ⟨some Namespace.word, some "w", "p"⟩ []
          ([boldRun "two"] ++ sampleStop :: [boldRun "three"]) :: []) [4] :=
    .lifted (by decide)
  have deeper : InParagraph sampleStop ([] ++ sample.children) [0, 4] :=
    .deeper (by decide) (by decide) lifted
  have ends : EndsInParagraph sample samplePair := ⟨sampleStop, by decide, deeper⟩
  exact ⟨success,
    flatten_of_substitute success rfl rfl placed (by decide) free ends (by decide)⟩

end Bookmark

end TemplateFill
