import TemplateFill.Proofs.Bookmark.Renewal

/-!
# Reading what was written

The new run is all that shows between the markers of a filled bookmark, but for the end of the
paragraph that the run may have got.
-/

namespace TemplateFill

namespace Bookmark

open Node

/-! ## Shown text -/

theorem shownText_of_quiet {node : Node} (quiet : node.Quiet) : shownText node = "" := by
  have noRun := quiet.no_run
  have noParagraph := quiet.no_paragraph
  rw [shownText]
  cases kind : node.kind <;> simp_all

theorem shownText_paragraph {node : Node} (paragraph : node.kind = .paragraph) :
    shownText node = "\n" := by
  rw [shownText, paragraph]

private theorem textContent_runTextElement (spell : Term → QName) (text : String) :
    (runTextElement spell text).textContent = text := by
  obtain ⟨attrs, content, same, ⟨rfl, empty⟩ | rfl⟩ := exists_runTextElement spell text
  · rw [same, empty]
    rfl
  · rw [same]
    change String.join [text] = text
    rw [String.join_cons, String.join_nil, String.append_empty]

/-- A run shows its text, if there is none in its formatting. -/
theorem shownText_textRun {spell : Term → QName} (spells : SpellsWords spell) {text : String}
    {formatting : List Node}
    (silent : ∀ node ∈ formatting, EveryLabel (fun label => label.kind ≠ .runText) node) :
    shownText (textRun spell formatting text) = text := by
  have nothing : (descendantsOfAll formatting).filter (·.kind == .runText) = [] := by
    rw [List.filter_eq_nil_iff]
    intro inner member isText
    rcases mem_descendantsOfAll.1 member with ⟨node, among, below⟩
    exact silent node among inner below (beq_iff_eq.1 isText)
  have shown : ((descendantsOfAll [runTextElement spell text]).filter (·.kind == .runText)).map
      (·.textContent) = [text] := by
    have isText : ((runTextElement spell text).kind == .runText) = true :=
      beq_iff_eq.2 spells.runText
    have below : (runTextElement spell text).descendants.filter (·.kind == .runText) = [] := by
      obtain ⟨attrs, content, same, ⟨rfl, _⟩ | rfl⟩ := exists_runTextElement spell text <;>
        rw [same] <;> rfl
    rw [descendantsOfAll, descendantsOfAll, List.append_nil, List.filter_cons, if_pos isText, below,
      List.map_singleton, textContent_runTextElement]
  rw [shownText, textRun, kind_element, spells.run, descendants_element, descendantsOfAll_append,
    List.filter_append, nothing, List.nil_append, shown, String.join_cons, String.join_nil,
    String.append_empty]

theorem join_shownText_of_quiet {nodes : List Node} (quiet : ∀ node ∈ nodes, node.Quiet) :
    String.join (nodes.map shownText) = "" := by
  induction nodes with
  | nil => rfl
  | cons node rest ih =>
      rw [List.forall_mem_cons] at quiet
      rw [List.map_cons, String.join_cons, shownText_of_quiet quiet.1, ih quiet.2,
        String.empty_append]

/-- What a bookmark shows is what is between its markers in the flat form. -/
theorem text_eq_of_marks {root : Node} {bookmark : String} {site : Site} {path : Path}
    (marks : site.Marks root.flatten bookmark path) :
    Bookmark.text root bookmark = .ok (String.join (site.inside.map shownText)) := by
  have present : findStart? root bookmark ≠ none := by
    intro lost
    have byLabel := byLabel_startsBookmark bookmark
    have none := byLabel.noneAmong_iff.1 (findPlaced?_eq_none_iff.1 lost)
    have flatLost := findPlaced?_eq_none_iff.2
      (byLabel.noneAmong_iff.2 (everyLabel_children_flatten none))
    have flatFound := findStart?_of_marks marks
    rw [findStart?, flatLost] at flatFound
    cases flatFound
  have pairFound := findPair_of_marks marks
  have siblings : ((root.flatten.at? (site.pair path).parent).map (·.children)).getD [] =
      site.siblings site.inside := by
    rw [show (site.pair path).parent = path from rfl, marks.reached.at?_eq]
    rfl
  rw [Bookmark.text]
  cases found : findStart? root bookmark with
  | none => exact absurd found present
  | some place =>
      simp only [pairFound]
      change Except.ok (String.join (((site.pair path).between _).map shownText)) = _
      rw [siblings, site.between_pair]

/-- The filling of a site shows the text, and a line end if the run got a paragraph. -/
theorem Site.join_shownText_filling {site : Site} {spell : Term → QName}
    (spells : SpellsWords spell) (text : String)
    (silent : ∀ formatting ∈ firstFormatting? site.inside,
      ∀ inner ∈ formatting.descendants, inner.kind ≠ .runText) :
    String.join ((site.filling spell text).map shownText) =
      if site.placeholderLanding.holdsParagraphs then text ++ "\n" else text := by
  have formatting : ∀ node ∈ (firstFormatting? site.inside).toList,
      EveryLabel (fun label => label.kind ≠ .runText) node := by
    intro node member
    have found := Option.mem_toList.1 member
    have kind : node.label.kind = .runProps := (mem_of_firstFormatting found).1
    have noText : node.label.kind ≠ .runText := by simp [kind]
    exact List.forall_mem_cons.2 ⟨noText, silent node found⟩
  have shown : ∀ node ∈ flattenAll ((regroupAll (firstFormatting? site.inside).toList).map
      (wrapRunsIn spell)), EveryLabel (fun label => label.kind ≠ .runText) node := by
    apply everyLabel_flattenAll
    refine List.forall_mem_map.2 fun node member => ?_
    apply everyLabel_wrapRunsIn
    · simp [Label.kind, spells.paragraph]
    · exact everyLabel_regroupAll formatting node member
  rw [Site.filling, placeholderFor, flattenNode_finish_placeholder spells _ rfl, List.map_cons,
    String.join_cons, shownText_textRun spells shown]
  cases held : site.placeholderLanding.holdsParagraphs with
  | true =>
      have mark : shownText (.element (spell Term.paragraph) [] []) = "\n" :=
        shownText_paragraph spells.paragraph
      rw [if_pos rfl, if_pos rfl, List.map_singleton, mark, String.join_cons, String.join_nil,
        String.append_empty]
  | false =>
      rw [if_neg Bool.false_ne_true, if_neg Bool.false_ne_true, List.map_nil, String.join_nil,
        String.append_empty]

end Bookmark

/-! ## The paragraph of the run -/

/-- A child that is no placeholder in a node that holds paragraphs. -/
def Kind.Unheld (outer inner : Kind) : Prop :=
  outer.holdsParagraphs = true → inner ≠ .placeholder

namespace Node

open Kind (Unheld)

/-- Whether some placeholder is a child of a node that holds paragraphs. -/
def holdsPlaceholder (root : Node) : Bool :=
  root.selfAndDescendants.any fun outer =>
    outer.kind.holdsParagraphs && outer.children.any (·.kind == .placeholder)

theorem holdsPlaceholder_eq_false_iff {root : Node} :
    root.holdsPlaceholder = false ↔ EveryEdge Unheld root := by
  simp only [holdsPlaceholder, EveryEdge, Unheld, List.any_eq_false, Bool.and_eq_true,
    List.any_eq_true, beq_iff_eq]
  constructor
  · intro none outer member child isChild held placeholder
    exact none outer member ⟨held, child, isChild, placeholder⟩
  · rintro unheld outer member ⟨held, child, isChild, placeholder⟩
    exact unheld outer member child isChild held placeholder

theorem permitsParagraphs_unheld : PermitsParagraphs Unheld where
  below _ _ := by decide
  inside _ held := by cases held

theorem everyEdge_unheld {node : Node} (free : node.PlaceholderFree) : EveryEdge Unheld node :=
  fun _ member _ isChild _ => free _ (mem_selfAndDescendants_child member isChild)

/-- Siblings without placeholders can be put before others. -/
theorem edgesBelow_unheld_append {outer : Kind} {left rest : List Node}
    (free : ∀ node ∈ left, node.PlaceholderFree)
    (edges : EdgesBelow Unheld outer (regroupAll rest)) :
    EdgesBelow Unheld outer (regroupAll (left ++ rest)) := by
  induction left with
  | nil => exact edges
  | cons node others ih =>
      rcases List.forall_mem_cons.1 free with ⟨nodeFree, othersFree⟩
      rw [List.cons_append, edgesBelow_regroupAll_cons permitsParagraphs_unheld, LandsAllowed]
      refine ⟨?_, ih othersFree⟩
      split
      · exact everyEdge_unheld nodeFree
      · exact ⟨fun _ => nodeFree.self, everyEdge_unheld (everyLabel_regroup nodeFree)⟩

theorem edgesBelow_unheld {outer : Kind} {nodes : List Node}
    (free : ∀ node ∈ nodes, node.PlaceholderFree) : EdgesBelow Unheld outer (regroupAll nodes) := by
  rw [← List.append_nil nodes]
  exact edgesBelow_unheld_append free (List.forall_mem_nil _)

end Node

namespace Bookmark

open Node
open Kind (Unheld)

section Held

variable {root filled : Node} {bookmark text : String} {site : Site} {path : Path}

theorem Site.everyEdge_unheld_iff (free : (site.holding site.inside).PlaceholderFree) :
    EveryEdge Unheld site.withPlaceholder.regroup ↔
      Unheld site.placeholderLanding .placeholder := by
  rcases everyLabel_element.1 free with ⟨_, below⟩
  rcases Site.forall_mem_siblings.1 below with ⟨left, start, inside, stop, right⟩
  have noParagraph : (placeholderFor site.inside).isParagraph = false := rfl
  have around : site.siblings (placeholderFor site.inside ::
      site.inside.filter outlivesReplacement) = (site.left ++ [site.start]) ++
        (placeholderFor site.inside ::
          (site.inside.filter outlivesReplacement ++ site.stop :: site.right)) := by
    simp [Site.siblings]
  rw [Site.withPlaceholder, Site.holding, regroup_element, everyEdge_element, around]
  constructor
  · intro edges
    have here := edgesBelow_regroupAll_of_append permitsParagraphs_unheld edges
    rw [edgesBelow_regroupAll_cons permitsParagraphs_unheld, LandsAllowed,
      if_neg (by simp [noParagraph])] at here
    exact here.1.1
  · intro lands
    apply edgesBelow_unheld_append
    · exact List.forall_mem_append.2 ⟨left, List.forall_mem_singleton.2 start⟩
    · rw [edgesBelow_regroupAll_cons permitsParagraphs_unheld, LandsAllowed,
        if_neg (by simp [noParagraph])]
      refine ⟨⟨lands, ?_⟩, edgesBelow_unheld ?_⟩
      · rw [placeholderFor, regroup_element, everyEdge_element]
        exact edgesBelow_unheld (everyLabel_formatting inside)
      · refine List.forall_mem_append.2 ⟨?_, List.forall_mem_cons.2 ⟨stop, right⟩⟩
        exact fun node member => inside node (List.mem_filter.1 member).1

/-- Some node that holds paragraphs gets the placeholder exactly if it lands in one. -/
theorem Fills.holdsPlaceholder_eq (fills : Fills root bookmark text filled site path)
    (free : root.PlaceholderFree)
    (opens : root.flatten.Reaches OpenStep path (site.holding site.inside)) :
    (root.flatten.putPlaceholder (site.pair path)).regroup.holdsPlaceholder =
      site.placeholderLanding.holdsParagraphs := by
  have flatFree := everyLabel_flatten free
  have siteFree := opens.everyLabel flatFree
  have permits := permitsParagraphs_unheld
  rw [fills.marks.putPlaceholder_eq]
  cases held : site.placeholderLanding.holdsParagraphs with
  | true =>
      apply Bool.ne_false_iff.1
      intro unheld
      rw [holdsPlaceholder_eq_false_iff] at unheld
      have steps := (fills.clearSteps flatFree opens).mono fun _ _ step => step.opens
      have lands := (Site.everyEdge_unheld_iff siteFree).1 (steps.everyEdge_regroup permits unheld)
      exact lands held rfl
  | false =>
      have lands : Unheld site.placeholderLanding .placeholder := by
        intro holds
        rw [held] at holds
        cases holds
      rw [holdsPlaceholder_eq_false_iff]
      exact opens.everyEdge_regroup_replaceAt permits rfl
        (fun _ => (Site.everyEdge_unheld_iff siteFree).2 lands)
        (everyEdge_unheld (everyLabel_regroup flatFree))

/-- What is read back from a filled bookmark is the text that was written, with a line end if the
run got a paragraph of its own, whatever the bookmark held before.  The document is a `Node`, so
that nothing is below its texts and comments. -/
theorem text_of_substitute {revised : Bool} {pair : MarkerPair}
    (success : substitute root revised bookmark text = .ok filled)
    (located : locate root.flatten bookmark = .ok pair) (free : root.PlaceholderFree)
    (outside : ∀ outer ∈ root.flatten.enclosing (pair.parent ++ [pair.first]),
      outer.isParagraphProps = false)
    (silent : ∀ formatting ∈ firstFormatting? (root.flatten.rangeOf pair),
      ∀ inner ∈ formatting.descendants, inner.kind ≠ .runText) :
    Bookmark.text filled bookmark =
      .ok (if (root.flatten.putPlaceholder pair).regroup.holdsPlaceholder then text ++ "\n"
        else text) := by
  obtain ⟨site, path, fills⟩ := exists_fills free success
  obtain rfl : site.pair path = pair := Except.ok.inj (fills.located.symm.trans located)
  rw [rangeOf_pair fills.marks.reached] at silent
  have opens := fills.openSteps (fills.marks.reached.of_enclosing outside)
  obtain ⟨fresh, path', middle, renews, marks, quiet⟩ := fills.exists_renews free opens
  calc Bookmark.text filled bookmark
    _ = .ok (String.join (fresh.inside.map shownText)) := text_eq_of_marks marks
    _ = .ok (String.join ((site.filling root.spell text).map shownText)) := by
        rw [renews.inside, List.map_append, String.join_append, join_shownText_of_quiet quiet,
          String.append_empty]
    _ = _ := by
        rw [site.join_shownText_filling (spellsWords_spell root) text silent,
          fills.holdsPlaceholder_eq free opens]

end Held

theorem text_sampleFilled :
    substitute sample false "b" "new" = .ok sampleFilled ∧
      Bookmark.text sampleFilled "b" = .ok "new" := by
  have success : substitute sample false "b" "new" = .ok sampleFilled := rfl
  have free : sample.PlaceholderFree :=
    show ∀ inner ∈ sample.selfAndDescendants, inner.label.kind ≠ .placeholder by decide
  have located : locate sample.flatten "b" = .ok samplePair := rfl
  exact ⟨success, text_of_substitute success located free (by decide) (by decide)⟩

end Bookmark

end TemplateFill
