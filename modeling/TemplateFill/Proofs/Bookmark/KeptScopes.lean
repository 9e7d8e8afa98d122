import TemplateFill.Proofs.Bookmark.Filling
import TemplateFill.Proofs.Markup.InScope

/-!
# Scopes in a substitution

A substitution takes nodes out of paragraphs and puts others into them, takes formatting out of
runs, and makes runs of placeholders.  Where these elements have no declarations all nodes stay in
the scopes in which they were.
-/

namespace TemplateFill

/-- Whether a substitution takes nodes out of elements of a kind or puts others into them. -/
def Kind.isOpened : Kind → Bool
  | .paragraph | .run | .placeholder => true
  | _ => false

/-- An element that is opened has no declarations. -/
def Label.Silent (label : Label) : Prop :=
  label.kind.isOpened = true → declarations label.attrs = []

instance : DecidablePred Label.Silent := fun label =>
  inferInstanceAs (Decidable (label.kind.isOpened = true → declarations label.attrs = []))

namespace Node

section Passes

variable {property : Scope → Label → Prop} {scope : Scope} {name : QName} {attrs : List Attr}
  {children : List Node} {node : Node} {spell : Term → QName} {text : String}
  (silent : ∀ scope label, property scope label → label.Silent)

include silent

/-- What is in an opened element is in the scope of the element. -/
theorem everyIn_opened (opened : name.kind.isOpened = true)
    (every : EveryIn property scope (.element name attrs children)) :
    declarations attrs = [] ∧ property scope (.element name attrs) ∧
      ∀ child ∈ children, EveryIn property scope child := by
  have nothing : declarations attrs = [] := silent _ _ (everyIn_element.1 every).1 opened
  exact ⟨nothing, (everyIn_element_of_silent nothing).1 every⟩

/-! ## The flat form -/

theorem everyIn_flattenNode (every : EveryIn property scope node) :
    ∀ flat ∈ flattenNode node, EveryIn property scope flat := by
  intro flat member
  suffices kept : ∀ scope, EveryIn property scope node → EveryIn property scope flat from
    kept scope every
  refine flattenNode_induction ?content ?mark ?container ?leaf member
  case content =>
    intro name attrs children child flat paragraph among _ _ inner scope every
    rcases everyIn_opened silent (by rw [paragraph]; rfl) every with ⟨_, _, below⟩
    exact inner scope (below child among)
  case mark =>
    intro name attrs children paragraph scope every
    rcases everyIn_opened silent (by rw [paragraph]; rfl) every with ⟨nothing, top, below⟩
    refine (everyIn_element_of_silent nothing).2 ⟨top, fun child among => ?_⟩
    exact below child (List.mem_filter.1 among).1
  case container =>
    intro name attrs children _ inner scope every
    refine every.withChildren rfl fun inScope below flat among => ?_
    rcases mem_flattenAll.1 among with ⟨child, isChild, isFlat⟩
    exact inner child isChild flat isFlat _ (below child isChild)
  case leaf => exact fun _ _ every => every

theorem everyIn_children_flatten {root : Node}
    (every : ∀ child ∈ root.children, EveryIn property scope child) :
    ∀ flat ∈ root.flatten.children, EveryIn property scope flat := by
  intro flat member
  rw [children_flatten] at member
  rcases mem_flattenAll.1 member with ⟨child, among, isFlat⟩
  exact everyIn_flattenNode silent (every child among) flat isFlat

private theorem everyIn_of_images {nodes : List Node}
    (every : ∀ node ∈ nodes, EveryIn property scope node)
    (images : ∀ node ∈ nodes, EveryIn property scope node.regroup) :
    ∀ result ∈ regroupAll nodes, EveryIn property scope result := by
  intro result member
  cases regroupedFrom_of_mem member with
  | image among _ => exact images _ among
  | paragraph mark paragraph taken _ =>
      rcases everyIn_opened silent (by rw [paragraph]; rfl) (every _ mark) with
        ⟨nothing, top, below⟩
      refine (everyIn_element_of_silent nothing).2 ⟨top, List.forall_mem_append.2 ⟨below, ?_⟩⟩
      exact List.forall_mem_map.2 fun inner isTaken => images inner (taken inner isTaken)

theorem everyIn_regroup (every : EveryIn property scope node) :
    EveryIn property scope node.regroup := by
  induction node using treeInduction generalizing scope with
  | element name attrs children ih =>
      rw [regroup_element]
      refine every.withChildren rfl fun scope each => everyIn_of_images silent each ?_
      exact fun child member => ih child member (each child member)
  | text | comment => exact every

theorem everyIn_children_regroup {root : Node}
    (every : ∀ child ∈ root.children, EveryIn property scope child) :
    ∀ child ∈ root.regroup.children, EveryIn property scope child := by
  cases root with
  | element name attrs children =>
      rw [regroup_element]
      exact everyIn_of_images silent every fun child member =>
        everyIn_regroup silent (every child member)
  | text | comment => exact every

/-! ## The last two passes -/

variable (allows : ∀ scope, AllowsNew (property scope) spell text)

omit silent

include allows

theorem everyIn_textRun {formatting : List Node}
    (every : ∀ node ∈ formatting, EveryIn property scope node) :
    EveryIn property scope (textRun spell formatting text) := by
  refine (everyIn_element_of_silent rfl).2 ⟨(allows scope).run, ?_⟩
  refine List.forall_mem_append.2 ⟨every, List.forall_mem_singleton.2 ?_⟩
  refine .element (allows _).runText fun child member => ?_
  split at member
  · cases member
  · rename_i filled
    rw [List.mem_singleton.1 member]
    exact .text ((allows _).text filled)

theorem everyIn_wrapped (every : EveryIn property scope node) :
    EveryIn property scope (.element (spell Term.paragraph) [] [node]) :=
  (everyIn_element_of_silent rfl).2 ⟨(allows scope).paragraph, List.forall_mem_singleton.2 every⟩

include silent

theorem everyIn_resolveIn (every : EveryIn property scope node) (outer : Kind) :
    EveryIn property scope (resolveIn spell text outer node) := by
  induction node using treeInduction generalizing scope outer with
  | element name attrs children ih =>
      by_cases placeholder : name.kind = .placeholder
      · have run : EveryIn property scope (textRun spell children text) :=
          everyIn_textRun allows
            (everyIn_opened silent (by rw [placeholder]; rfl) every).2.2
        rw [resolveIn, if_pos placeholder]
        split
        · exact everyIn_wrapped allows run
        · exact run
      · rw [resolveIn, if_neg placeholder, resolveAll_eq_map]
        refine every.withChildren rfl fun scope each => List.forall_mem_map.2 fun child member => ?_
        exact ih child member (each child member) name.kind
  | text | comment => exact every

theorem everyIn_children_resolveIn {root : Node} (notHolder : root.kind ≠ .placeholder)
    (every : ∀ child ∈ root.children, EveryIn property scope child) (outer : Kind) :
    ∀ child ∈ (resolveIn spell text outer root).children, EveryIn property scope child := by
  cases root with
  | element name attrs children =>
      rw [kind_element] at notHolder
      rw [resolveIn, if_neg notHolder, resolveAll_eq_map]
      exact List.forall_mem_map.2 fun child member =>
        everyIn_resolveIn silent allows (every child member) name.kind
  | text | comment => exact every

omit silent

private theorem everyIn_wrapRunsAll (outer : Kind) {nodes : List Node}
    (each : ∀ node ∈ nodes, EveryIn property scope (wrapRunsIn spell node)) :
    ∀ node ∈ wrapRunsAll spell outer nodes, EveryIn property scope node := by
  rw [wrapRunsAll_eq_map]
  refine List.forall_mem_map.2 fun node member => ?_
  split
  · exact everyIn_wrapped allows (each node member)
  · exact each node member

theorem everyIn_wrapRunsIn (every : EveryIn property scope node) :
    EveryIn property scope (wrapRunsIn spell node) := by
  induction node using treeInduction generalizing scope with
  | element name attrs children ih =>
      refine every.withChildren rfl fun scope each => everyIn_wrapRunsAll allows name.kind ?_
      exact fun child member => ih child member (each child member)
  | text | comment => exact every

theorem everyIn_children_wrapRunsIn {root : Node}
    (every : ∀ child ∈ root.children, EveryIn property scope child) :
    ∀ child ∈ (wrapRunsIn spell root).children, EveryIn property scope child := by
  cases root with
  | element name attrs children =>
      exact everyIn_wrapRunsAll allows name.kind fun child member =>
        everyIn_wrapRunsIn allows (every child member)
  | text | comment => exact every

end Passes

/-- Putting other children at a position keeps the scopes if it keeps them there. -/
theorem Reaches.everyIn_children_replaceAt {passes : List Node → Node → Prop}
    {property : Scope → Label → Prop} {scope : Scope} {root target fresh : Node} {path : Path}
    (reached : Reaches passes root path target) (same : fresh.label = target.label)
    (below : ∀ scope, (∀ child ∈ target.children, EveryIn property scope child) →
      ∀ child ∈ fresh.children, EveryIn property scope child)
    (every : ∀ child ∈ root.children, EveryIn property scope child) :
    ∀ child ∈ (root.replaceAt path fresh).children, EveryIn property scope child := by
  induction reached generalizing scope with
  | here => exact below scope every
  | @down name attrs left child right rest target _ inner ih =>
      rw [children_element, List.forall_mem_append, List.forall_mem_cons] at every
      rw [replaceAt_down, children_element, List.forall_mem_append, List.forall_mem_cons]
      refine ⟨every.1, every.2.1.withChildren (inner.label_replaceAt same) ?_, every.2.2⟩
      exact fun scope each => ih same below each

end Node

namespace Bookmark

open Node

variable {root filled : Node} {bookmark text : String} {site : Site} {path : Path}
  {property : Scope → Label → Prop} {scope : Scope}

private theorem Site.everyIn_withPlaceholder
    (silent : ∀ scope label, property scope label → label.Silent)
    (placeholder : property scope (.element (QName.ofTerm Term.placeholder) []))
    (every : ∀ child ∈ (site.holding site.inside).children, EveryIn property scope child) :
    ∀ child ∈ site.withPlaceholder.children, EveryIn property scope child := by
  rcases Site.forall_mem_siblings.1 every with ⟨left, start, inside, stop, right⟩
  refine Site.forall_mem_siblings.2 ⟨left, start, List.forall_mem_cons.2 ⟨?_, ?_⟩, stop, right⟩
  · refine (everyIn_element_of_silent rfl).2 ⟨placeholder, fun formatting member => ?_⟩
    rcases mem_of_firstFormatting (Option.mem_toList.1 member) with
      ⟨_, run, among, isRun, isChild⟩
    cases run with
    | element name attrs children =>
        have opened : name.kind.isOpened = true := by
          rw [← kind_element name attrs children, isRun]
          rfl
        exact (everyIn_opened silent opened (inside _ among)).2.2 formatting isChild
    | text | comment => cases isChild
  · exact fun node member => inside node (List.mem_filter.1 member).1

/-- After a substitution all nodes are in the scopes in which they were, and new ones are in scopes
that were there. -/
theorem Fills.everyIn_children (fills : Fills root bookmark text filled site path)
    (notHolder : root.kind ≠ .placeholder)
    (silent : ∀ scope label, property scope label → label.Silent)
    (allows : ∀ scope, AllowsNew (property scope) root.spell text)
    (placeholder : ∀ scope, property scope (.element (QName.ofTerm Term.placeholder) []))
    (every : ∀ child ∈ root.children, EveryIn property scope child) :
    ∀ child ∈ filled.children, EveryIn property scope child := by
  have placed := fills.marks.reached.everyIn_children_replaceAt
    (show site.withPlaceholder.label = _ from rfl)
    (fun scope => Site.everyIn_withPlaceholder silent (placeholder scope))
    (everyIn_children_flatten silent every)
  have notHolder' : (root.flatten.replaceAt path site.withPlaceholder).regroup.kind ≠
      .placeholder := by
    rw [Site.withPlaceholder, kind_eq_of_label_eq (fills.marks.label_regroup _)]
    exact notHolder
  rw [fills.result]
  exact everyIn_children_wrapRunsIn allows
    (everyIn_children_resolveIn silent allows notHolder'
      (everyIn_children_regroup silent placed) .generic)

end Bookmark

end TemplateFill
