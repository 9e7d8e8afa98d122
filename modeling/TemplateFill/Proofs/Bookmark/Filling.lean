import TemplateFill.Proofs.Bookmark.FlatForm
import TemplateFill.Proofs.Bookmark.Landing
import TemplateFill.Proofs.Bookmark.Refill
import TemplateFill.Proofs.Bookmark.Site

/-!
# What a substitution goes through

A substitution puts a run of the new text between the markers, in the flat form.  It gets there
by way of a placeholder, which regrouping puts into its paragraph, and two passes that put
paragraphs around runs.
-/

namespace TemplateFill

open TemplateFill.Text

namespace Node

/-- A run made for a text: formatting, and a text element that holds exactly the text and
protects its blanks exactly if there are any at its ends. -/
structure IsRunOf (spell : Term → QName) (formatting : List Node) (text : String) (run : Node) :
    Prop where
  label : run.label = .element (spell Term.run) []
  kind : run.kind = .run
  children : ∃ shown, run.children = formatting ++ [shown] ∧
    shown.name? = some (spell Term.runText) ∧ shown.kind = .runText ∧
    shown.children = (if text = "" then [] else [.text text]) ∧
    (shown.attrs = [⟨spell Term.space, "preserve"⟩] ∨ shown.attrs = []) ∧
    (shown.attr? Term.space = some "preserve" ↔
      (∃ first rest, text.toList = first :: rest ∧ isBlank first = true) ∨
        ∃ front last, text.toList = front ++ [last] ∧ isBlank last = true)

/-- The siblings around a pair of markers with `run` in the place of what is between, before
all that is neither run nor paragraph mark nor table. -/
def spliceBetween (pair : MarkerPair) (run : Node) (siblings : List Node) : List Node :=
  siblings.take (pair.first + 1) ++
    run :: (pair.between siblings).filter
      (fun node => !(node.kind == .run || node.kind == .paragraph || node.kind == .table)) ++
    siblings.drop pair.last

/-- A flat document with `run` in the place of what is between two markers. -/
def splice (root : Node) (pair : MarkerPair) (run : Node) : Node :=
  root.updateAt (·.mapChildren (spliceBetween pair run)) pair.parent

/-- What is between two markers of a document. -/
def rangeOf (root : Node) (pair : MarkerPair) : List Node :=
  pair.between (((root.at? pair.parent).map (·.children)).getD [])

theorem isRunOf_textRun (root : Node) (formatting : List Node) (text : String) :
    IsRunOf root.spell formatting text (textRun root.spell formatting text) where
  label := rfl
  kind := rfl
  children := by
    refine ⟨runTextElement root.spell text, rfl, rfl, rfl, rfl, ?_, ?_⟩
    · simp only [runTextElement, attrs, label, Label.attrs]
      split
      · exact .inl rfl
      · exact .inr rfl
    · have edges : hasEdgeBlank text.toList = true ↔
          (∃ first rest, text.toList = first :: rest ∧ isBlank first = true) ∨
            ∃ front last, text.toList = front ++ [last] ∧ isBlank last = true := by
        rw [hasEdgeBlank, Bool.or_eq_true]
        apply or_congr
        · cases text.toList <;> simp
        · rcases List.eq_nil_or_concat text.toList with empty | ⟨front, last, whole⟩
          · simp [empty]
          · rw [List.concat_eq_append] at whole
            rw [whole, List.getLast?_concat, Option.any_some]
            constructor
            · intro blank
              exact ⟨front, last, rfl, blank⟩
            · rintro ⟨front', last', same, blank⟩
              rw [List.append_singleton_inj.1 same |>.2]
              exact blank
      rw [← edges]
      cases blank : hasEdgeBlank text.toList with
      | true =>
          simp only [runTextElement, blank, if_true, iff_true]
          rfl
      | false => simp [runTextElement, blank, attr?, attrValue?, attrs, label, Label.attrs]

theorem spliceBetween_siblings (site : Bookmark.Site) (path : Path) (run : Node) :
    spliceBetween (site.pair path) run (site.siblings site.inside) =
      site.siblings (run :: site.inside.filter outlivesReplacement) := by
  have outlives : (fun node : Node =>
      !(node.kind == .run || node.kind == .paragraph || node.kind == .table)) =
        outlivesReplacement := by
    funext node
    rw [outlivesReplacement]
    cases node.kind <;> rfl
  rw [spliceBetween, site.between_pair, site.take_siblings, site.drop_siblings, outlives]
  simp [Bookmark.Site.siblings]

theorem rangeOf_pair {site : Bookmark.Site} {root : Node} {passes : List Node → Node → Prop}
    {path : Path} (reached : Reaches passes root path (site.holding site.inside)) :
    root.rangeOf (site.pair path) = site.inside := by
  have children : ((root.at? (site.pair path).parent).map (·.children)).getD [] =
      site.siblings site.inside := by
    rw [show (site.pair path).parent = path from rfl, reached.at?_eq]
    rfl
  rw [rangeOf, children, site.between_pair]

/-- Putting another node at a position leaves a flat document flat, if the new children are as
flat as the old ones. -/
theorem Reaches.flatSibling_replaceAt {strays : Prop} {passes : List Node → Node → Prop}
    {node target fresh : Node} {path : Path} (reached : Reaches passes node path target)
    (keeps : fresh.label = target.label)
    (other : ∃ child ∈ target.children, child.isParagraphProps = false)
    (each : (∀ child ∈ target.children, FlatSibling strays child) →
      ∀ child ∈ fresh.children, FlatSibling strays child)
    (flat : FlatSibling strays node) : FlatSibling strays (node.replaceAt path fresh) := by
  induction reached with
  | here =>
      cases flat with
      | mark kind allProps =>
          rcases other with ⟨child, member, notProps⟩
          rw [allProps child member] at notProps
          cases notProps
      | container noParagraph noProps below =>
          cases fresh with
          | element name attrs children =>
              obtain ⟨rfl, rfl⟩ := Label.element.inj keeps
              exact .container noParagraph noProps (each below)
          | text | comment => cases keeps
      | props allowed isProps =>
          apply FlatSibling.props allowed
          rw [replaceAt_here, isParagraphProps, kind_eq_of_label_eq keeps]
          exact isProps
      | text | comment =>
          rcases other with ⟨child, member, _⟩
          cases member
  | @down name attrs left child right rest target passing inner ih =>
      rw [replaceAt_down]
      cases flat with
      | mark kind allProps =>
          simp only [List.forall_mem_append, List.forall_mem_cons] at allProps
          apply FlatSibling.mark kind
          simp only [List.forall_mem_append, List.forall_mem_cons]
          refine ⟨allProps.1, ?_, allProps.2.2⟩
          rw [isParagraphProps, kind_eq_of_label_eq (inner.label_replaceAt keeps)]
          exact allProps.2.1
      | container noParagraph noProps below =>
          simp only [List.forall_mem_append, List.forall_mem_cons] at below
          apply FlatSibling.container noParagraph noProps
          simp only [List.forall_mem_append, List.forall_mem_cons]
          exact ⟨below.1, ih keeps other each below.2.1, below.2.2⟩
      | props allowed isProps => exact .props allowed isProps

/-- A way in the flat form that stays clear of paragraph properties does not enter paragraph
marks either. -/
theorem Reaches.openSteps {root target : Node} {path : Path}
    (reached : Reaches (fun _ child => child.isParagraphProps = false) root path target)
    (flat : ∀ child ∈ root.children, FlatSibling True child)
    (controls : ∀ child ∈ root.children,
      EveryLabel (fun label => label.kind ≠ .contentControl) child)
    (other : ∃ child ∈ target.children, child.isParagraphProps = false) :
    Reaches OpenStep root path target := by
  induction reached with
  | here => exact .here
  | @down name attrs left child right rest target passing inner ih =>
      have among : child ∈ (element name attrs (left ++ child :: right)).children := by simp
      have noControl := controls child among
      cases flat child among with
      | mark kind allProps =>
          -- All that is in a mark is properties, and there is a step or a child that is not.
          cases inner with
          | here =>
              rcases other with ⟨grandchild, member, notProps⟩
              rw [allProps grandchild member] at notProps
              cases notProps
          | down step _ =>
              rw [allProps _ (by simp)] at step
              cases step
      | container noParagraph noProps every =>
          refine .down ⟨?_, passing, noControl.self⟩ (ih every (fun _ => noControl.child) other)
          simpa [isParagraph] using noParagraph
      | props _ isProps => rw [isProps] at passing; cases passing
      | text | comment =>
          cases inner with
          | here =>
              rcases other with ⟨grandchild, member, _⟩
              cases member

end Node

namespace Bookmark

open Node

namespace Site

/-- A site with a run of `text` behind its start marker, before what outlives the
replacement. -/
def withRun (site : Site) (spell : Term → QName) (text : String) : Node :=
  site.holding (textRun spell (firstFormatting? site.inside).toList text ::
    site.inside.filter outlivesReplacement)

/-- The same with a placeholder. -/
def withPlaceholder (site : Site) : Node :=
  site.holding (placeholderFor site.inside :: site.inside.filter outlivesReplacement)

end Site

/-- What is known of a substitution that succeeds. -/
structure Fills (root : Node) (bookmark text : String) (filled : Node) (site : Site)
    (path : Path) : Prop where
  marks : site.Marks root.flatten bookmark path
  located : locate root.flatten bookmark = .ok (site.pair path)
  no_controls : ∀ child ∈ root.flatten.children,
    EveryLabel (fun label => label.kind ≠ .contentControl) child
  result : filled = wrapRunsIn root.spell
    (resolveIn root.spell text .generic
      (root.flatten.replaceAt path site.withPlaceholder).regroup)

theorem no_controls_of_validate {root : Node} {revised : Bool} {bookmark : String}
    (valid : validate root revised bookmark = .ok ()) :
    ∀ inner ∈ root.descendants, inner.label.kind ≠ .contentControl := by
  unfold validate at valid
  split at valid
  · cases valid
  · split at valid
    · cases valid
    · split at valid
      · cases valid
      · split at valid
        · cases valid
        · rename_i none
          intro inner member control
          apply none
          rw [List.any_eq_true]
          exact ⟨inner, member, by rw [kind, control]; rfl⟩

theorem spell_eq_of_label_eq {left right : Node} (equal : left.label = right.label) :
    left.spell = right.spell := by
  funext term
  rw [spell, spell, attrs, attrs, equal]

section Fills

variable {root filled : Node} {bookmark text : String} {site : Site} {path : Path}

theorem Site.Marks.putPlaceholder_eq (marks : site.Marks root bookmark path) :
    root.putPlaceholder (site.pair path) = root.replaceAt path site.withPlaceholder := by
  rw [putPlaceholder, show (site.pair path).parent = path from rfl, marks.reached.updateAt_eq,
    Site.holding, mapChildren, site.replaceBetween_siblings]
  rfl

theorem Site.Marks.label_replaceAt (marks : site.Marks root bookmark path) (middle : List Node) :
    (root.replaceAt path (site.holding middle)).label = root.label :=
  marks.reached.label_replaceAt rfl

/-- The passes up to regrouping keep the root. -/
theorem Site.Marks.label_regroup (marks : site.Marks root.flatten bookmark path)
    (middle : List Node) :
    (root.flatten.replaceAt path (site.holding middle)).regroup.label = root.label := by
  rw [Node.label_regroup, marks.label_replaceAt, label_flatten]

theorem Site.Marks.exists_not_props (marks : site.Marks root bookmark path) :
    ∃ child ∈ (site.holding site.inside).children, child.isParagraphProps = false := by
  refine ⟨site.start, by simp [Site.holding, Site.siblings], ?_⟩
  rw [isParagraphProps, marks.start_kind]
  rfl

/-- A valid bookmark that is located is filled. -/
theorem substitute_of_located {revised : Bool} {pair : MarkerPair} (text : String)
    (valid : validate root revised bookmark = .ok ())
    (located : locate root.flatten bookmark = .ok pair) :
    substitute root revised bookmark text =
      .ok (((root.flatten.putPlaceholder pair).regroup.resolvePlaceholders text).wrapBodyRuns) := by
  simp only [substitute, valid, located]
  rfl

/-- A substitution at a site fills the site. -/
theorem fills_of_marks {revised : Bool} (notHolder : root.kind ≠ .placeholder)
    (valid : validate root revised bookmark = .ok ())
    (located : locate root.flatten bookmark = .ok (site.pair path))
    (marks : site.Marks root.flatten bookmark path)
    (success : substitute root revised bookmark text = .ok filled) :
    Fills root bookmark text filled site path := by
  rw [substitute_of_located text valid located] at success
  have result := (Except.ok.inj success).symm
  rw [marks.putPlaceholder_eq] at result
  have labels : (root.flatten.replaceAt path site.withPlaceholder).regroup.label = root.label :=
    marks.label_regroup _
  have other : (root.flatten.replaceAt path site.withPlaceholder).regroup.kind ≠
      .placeholder := by
    rw [kind_eq_of_label_eq labels]
    exact notHolder
  rw [wrapBodyRuns, resolvePlaceholders, spell_eq_of_label_eq labels,
    spell_eq_of_label_eq ((label_resolveIn other).trans labels)] at result
  refine ⟨marks, located, ?_, result⟩
  apply everyLabel_children_flatten
  exact everyLabel_child_of_descendants (no_controls_of_validate valid)

theorem valid_of_substitute {revised : Bool}
    (success : substitute root revised bookmark text = .ok filled) :
    validate root revised bookmark = .ok () := by
  cases valid : validate root revised bookmark with
  | error error =>
      rw [substitute, valid] at success
      cases success
  | ok => rfl

theorem exists_located_of_substitute {revised : Bool}
    (success : substitute root revised bookmark text = .ok filled) :
    ∃ pair, locate root.flatten bookmark = .ok pair := by
  cases located : locate root.flatten bookmark with
  | error error =>
      simp only [substitute, valid_of_substitute success, located] at success
      cases success
  | ok pair => exact ⟨pair, rfl⟩

/-- A substitution that succeeds has found a site and filled it. -/
theorem exists_fills_of_kind {revised : Bool} (notHolder : root.kind ≠ .placeholder)
    (success : substitute root revised bookmark text = .ok filled) :
    ∃ site path, Fills root bookmark text filled site path := by
  have valid := valid_of_substitute success
  obtain ⟨pair, located⟩ := exists_located_of_substitute success
  obtain ⟨site, path, marks, rfl⟩ := exists_site_of_findPair (findPair_of_locate located)
  exact ⟨site, path, fills_of_marks notHolder valid located marks success⟩

theorem exists_fills {revised : Bool} (free : root.PlaceholderFree)
    (success : substitute root revised bookmark text = .ok filled) :
    ∃ site path, Fills root bookmark text filled site path :=
  exists_fills_of_kind free.self success

theorem Site.Marks.splice_eq (marks : site.Marks root bookmark path) (spell : Term → QName)
    (text : String) :
    root.splice (site.pair path)
        (textRun spell (firstFormatting? (root.rangeOf (site.pair path))).toList text) =
      root.replaceAt path (site.withRun spell text) := by
  rw [rangeOf_pair marks.reached, splice, show (site.pair path).parent = path from rfl,
    marks.reached.updateAt_eq, Site.holding, mapChildren, spliceBetween_siblings]
  rfl

/-- Filling in the placeholder of a site leaves the run in its place. -/
theorem Site.Marks.fillIn_eq (marks : site.Marks root bookmark path) (free : root.PlaceholderFree)
    (spell : Term → QName) :
    fillIn spell text (root.replaceAt path site.withPlaceholder) =
      root.replaceAt path (site.withRun spell text) := by
  rcases everyLabel_element.1 (marks.reached.everyLabel free) with ⟨top, below⟩
  rcases Site.forall_mem_siblings.1 below with ⟨left, start, inside, stop, right⟩
  have survivors : ∀ node ∈ site.inside.filter outlivesReplacement, node.PlaceholderFree :=
    fun node member => inside node (List.mem_filter.1 member).1
  rw [marks.reached.fillIn_replaceAt free, Site.withPlaceholder, Site.withRun, Site.holding,
    fillIn_element top]
  simp only [Site.holding, Site.siblings, List.map_append, List.map_cons,
    map_fillIn_of_placeholderFree left, map_fillIn_of_placeholderFree survivors,
    map_fillIn_of_placeholderFree right, fillIn_of_placeholderFree start,
    fillIn_of_placeholderFree stop]
  rfl

theorem mem_of_firstFormatting {siblings : List Node} {formatting : Node}
    (found : firstFormatting? siblings = some formatting) :
    formatting.kind = .runProps ∧
      ∃ run ∈ siblings, run.kind = .run ∧ formatting ∈ run.children := by
  unfold firstFormatting? at found
  rcases Option.bind_eq_some_iff.1 found with ⟨run, first, props⟩
  refine ⟨by simpa using List.find?_some props, run, List.mem_of_find?_eq_some first, ?_,
    List.mem_of_find?_eq_some props⟩
  simpa using List.find?_some first

theorem everyLabel_formatting {property : Label → Prop} {range : List Node}
    (every : ∀ node ∈ range, EveryLabel property node) :
    ∀ node ∈ (firstFormatting? range).toList, EveryLabel property node := by
  intro formatting member
  obtain ⟨_, run, among, _, isChild⟩ := mem_of_firstFormatting (Option.mem_toList.1 member)
  exact (every run among).child isChild

/-- The site with a run has no labels but its own and those of the run. -/
theorem Site.everyLabel_withRun {property : Label → Prop} {spell : Term → QName}
    (allows : AllowsNew property spell text)
    (every : EveryLabel property (site.holding site.inside)) :
    EveryLabel property (site.withRun spell text) := by
  rcases everyLabel_element.1 every with ⟨top, below⟩
  rcases Site.forall_mem_siblings.1 below with ⟨left, start, inside, stop, right⟩
  refine everyLabel_element.2 ⟨top, Site.forall_mem_siblings.2 ⟨left, start, ?_, stop, right⟩⟩
  refine List.forall_mem_cons.2 ⟨everyLabel_textRun allows (everyLabel_formatting inside), ?_⟩
  exact fun node member => inside node (List.mem_filter.1 member).1

/-- What a substitution makes has no labels but those of the document and of new nodes. -/
theorem Fills.everyLabel {property : Label → Prop}
    (fills : Fills root bookmark text filled site path) (free : root.PlaceholderFree)
    (allows : AllowsNew property root.spell text)
    (every : EveryLabel property root) : EveryLabel property filled := by
  have flat := everyLabel_flatten every
  have spliced := fills.marks.reached.everyLabel_replaceAt flat
    (Site.everyLabel_withRun allows (fills.marks.reached.everyLabel flat))
  have regrouped := everyLabel_regroup spliced
  rw [← fills.marks.fillIn_eq (everyLabel_flatten free),
    regroup_fillIn (spellsWords_spell root)] at regrouped
  rw [fills.result]
  exact everyLabel_wrapRunsIn allows.paragraph
    (everyLabel_resolveIn allows regrouped .generic)

/-- A substitution leaves no placeholder behind. -/
theorem Fills.placeholderFree (fills : Fills root bookmark text filled site path)
    (free : root.PlaceholderFree) : filled.PlaceholderFree := by
  apply fills.everyLabel free ((spellsWords_spell root).allowsNew ?_) free
  rintro label (kind | kind | kind | kind) <;> simp [kind]

/-- A substitution keeps the root. -/
theorem Fills.label_eq_of_kind (fills : Fills root bookmark text filled site path)
    (notHolder : root.kind ≠ .placeholder) : filled.label = root.label := by
  have labels : (root.flatten.replaceAt path site.withPlaceholder).regroup.label = root.label :=
    fills.marks.label_regroup _
  have other : (root.flatten.replaceAt path site.withPlaceholder).regroup.kind ≠
      .placeholder := by
    rw [kind_eq_of_label_eq labels]
    exact notHolder
  rw [fills.result, label_wrapRunsIn, label_resolveIn other, labels]

theorem Fills.label_eq (fills : Fills root bookmark text filled site path)
    (free : root.PlaceholderFree) : filled.label = root.label :=
  fills.label_eq_of_kind free.self

private theorem flatSibling_runTextElement {strays : Prop} {spell : Term → QName}
    (spells : SpellsWords spell) :
    FlatSibling strays (runTextElement spell text) := by
  obtain ⟨attrs, content, same, isText⟩ := exists_runTextElement spell text
  rw [same]
  apply FlatSibling.container (by simp [spells.runText]) (by simp [spells.runText])
  rcases isText with ⟨rfl, _⟩ | rfl
  · exact List.forall_mem_nil _
  · exact List.forall_mem_singleton.2 .text

private theorem flatSibling_textRun {strays : Prop} {spell : Term → QName}
    (spells : SpellsWords spell) {formatting : List Node}
    (flat : ∀ node ∈ formatting, FlatSibling strays node) :
    FlatSibling strays (textRun spell formatting text) := by
  apply FlatSibling.container (by simp [spells.run]) (by simp [spells.run])
  refine List.forall_mem_append.2 ⟨flat, fun node member => ?_⟩
  rw [List.mem_singleton.1 member]
  exact flatSibling_runTextElement spells

private theorem flatSibling_of_mem_run {strays : Prop} {run formatting : Node}
    (flat : FlatSibling strays run) (isRun : run.kind = .run)
    (member : formatting ∈ run.children) : FlatSibling strays formatting := by
  cases flat with
  | mark kind _ => rw [kind_element, kind] at isRun; cases isRun
  | container _ _ each => exact each formatting member
  | props _ isProps => rw [isParagraphProps, isRun] at isProps; cases isProps
  | text | comment => cases member

/-- A site that is not in paragraph properties is reached by open steps. -/
theorem Fills.openSteps (fills : Fills root bookmark text filled site path)
    (reached : root.flatten.Reaches (fun _ child => child.isParagraphProps = false) path
      (site.holding site.inside)) :
    root.flatten.Reaches OpenStep path (site.holding site.inside) := by
  apply reached.openSteps
  · exact fun child member => flatSibling_of_mem_flatten member
  · exact fills.no_controls
  · exact fills.marks.exists_not_props

/-- The formatting of a range is as flat as the range. -/
theorem flatSibling_formatting {strays : Prop} {range : List Node}
    (flat : ∀ node ∈ range, FlatSibling strays node) :
    ∀ node ∈ (firstFormatting? range).toList, FlatSibling strays node := by
  intro formatting member
  obtain ⟨_, run, among, isRun, isChild⟩ := mem_of_firstFormatting (Option.mem_toList.1 member)
  exact flatSibling_of_mem_run (flat run among) isRun isChild

/-- With what is flat between its markers a site leaves a flat document flat. -/
theorem Site.Marks.flatSibling_holding {strays : Prop} {middle : List Node}
    (marks : site.Marks root bookmark path)
    (fresh : (∀ node ∈ site.inside, FlatSibling strays node) →
      ∀ node ∈ middle, FlatSibling strays node)
    (flat : ∀ node ∈ root.children, FlatSibling strays node) :
    ∀ node ∈ (root.replaceAt path (site.holding middle)).children,
      FlatSibling strays node := by
  have each : (∀ node ∈ (site.holding site.inside).children, FlatSibling strays node) →
      ∀ node ∈ (site.holding middle).children, FlatSibling strays node := by
    intro siblings
    rcases Site.forall_mem_siblings.1 siblings with ⟨left, start, inside, stop, right⟩
    exact Site.forall_mem_siblings.2 ⟨left, start, fresh inside, stop, right⟩
  have other := marks.exists_not_props
  have reached := marks.reached
  generalize goal : site.holding site.inside = target at reached
  cases reached with
  | here => exact each (goal ▸ flat)
  | down _ inner =>
      subst goal
      rw [replaceAt_down, children_element]
      simp only [children_element, List.forall_mem_append, List.forall_mem_cons] at flat ⊢
      exact ⟨flat.1, inner.flatSibling_replaceAt rfl other each flat.2.1, flat.2.2⟩

/-- The document with the run in its place is as flat as before. -/
theorem Site.Marks.flatSibling_withRun {strays : Prop} {spell : Term → QName}
    (marks : site.Marks root bookmark path) (spells : SpellsWords spell)
    (flat : ∀ node ∈ root.children, FlatSibling strays node) :
    ∀ node ∈ (root.replaceAt path (site.withRun spell text)).children,
      FlatSibling strays node := by
  apply marks.flatSibling_holding _ flat
  intro inside
  refine List.forall_mem_cons.2 ⟨flatSibling_textRun spells (flatSibling_formatting inside), ?_⟩
  exact fun node member => inside node (List.mem_filter.1 member).1

/-- And so is the document with the placeholder. -/
theorem Site.Marks.flatSibling_withPlaceholder {strays : Prop}
    (marks : site.Marks root bookmark path)
    (flat : ∀ node ∈ root.children, FlatSibling strays node) :
    ∀ node ∈ (root.replaceAt path site.withPlaceholder).children, FlatSibling strays node := by
  apply marks.flatSibling_holding _ flat
  intro inside
  refine List.forall_mem_cons.2 ⟨.container (by decide) (by decide) ?_, ?_⟩
  · exact flatSibling_formatting inside
  · exact fun node member => inside node (List.mem_filter.1 member).1

end Fills

/-! ## A bookmark across paragraphs -/

/-- A word-processing element, as it is usually written. -/
def wordElement (localName : String) (attrs : List (String × String))
    (children : List Node) : Node :=
  .element ⟨some Namespace.word, some "w", localName⟩
    (attrs.map fun attr => ⟨⟨some Namespace.word, some "w", attr.1⟩, attr.2⟩) children

def boldRun (text : String) : Node :=
  wordElement "r" [] [wordElement "rPr" [] [wordElement "b" [] []],
    wordElement "t" [] [.text text]]

def sampleStart : Node := wordElement "bookmarkStart" [("id", "3"), ("name", "b")] []

def sampleStop : Node := wordElement "bookmarkEnd" [("id", "3")] []

/-- A document whose bookmark begins in one paragraph and ends in the next. -/
def sample : Node :=
  wordElement "document" [] [wordElement "body" [] [
    wordElement "p" [] [wordElement "pPr" [] [], sampleStart, boldRun "one"],
    wordElement "p" [] [boldRun "two", sampleStop, boldRun "three"]]]

/-- The sample with `new` in its bookmark. -/
def sampleFilled : Node :=
  wordElement "document" [] [wordElement "body" [] [
    wordElement "p" [] [sampleStart, boldRun "new", sampleStop, boldRun "three"]]]

/-- Where the markers are in the flat form of the sample. -/
def samplePair : MarkerPair := ⟨[0], 0, 4, by decide⟩

end Bookmark

end TemplateFill
