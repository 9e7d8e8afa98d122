import TemplateFill.Proofs.Bookmark.Starts

/-!
# Start markers that no substitution drops

What is dropped between two markers is a run, a table or a paragraph mark, and in a mark there is
nothing but properties.  So the start markers outside of runs, tables and paragraph properties are
as many after a substitution as before, whatever bookmark is filled.
-/

namespace TemplateFill

/-- Whether elements of a kind keep what is in them when they are part of a range that is replaced:
runs, tables and paragraph properties do not, and placeholders become runs. -/
def Kind.isLasting : Kind → Bool
  | .run | .table | .paragraphProps | .placeholder => false
  | _ => true

namespace Node

section Lasting

variable {bookmark : String} {node target fresh : Node}

private theorem startsIn_props (isProps : node.isParagraphProps = true) :
    startsIn Kind.isLasting bookmark node = 0 := by
  cases node with
  | element name attrs children =>
      have props : name.kind = .paragraphProps := beq_iff_eq.1 isProps
      rw [startsIn_of_kind (by rw [props]; decide), props]
      rfl
  | text | comment => rfl

private theorem startsIn_props_congr {left right : Node} (same : left.label = right.label)
    (isProps : right.isParagraphProps = true) :
    startsIn Kind.isLasting bookmark left = startsIn Kind.isLasting bookmark right := by
  have isProps' : left.isParagraphProps = true := by
    rw [isParagraphProps, kind_eq_of_label_eq same]
    exact isProps
  rw [startsIn_props isProps, startsIn_props isProps']

private theorem startsAmong_eq_zero {enters : Kind → Bool} {nodes : List Node}
    (none : ∀ node ∈ nodes, startsIn enters bookmark node = 0) :
    startsAmong enters bookmark nodes = 0 := by
  induction nodes with
  | nil => rfl
  | cons node rest ih =>
      rw [List.forall_mem_cons] at none
      rw [startsAmong_cons, none.1, ih none.2]

/-- What a replacement drops in the flat form has no start marker outside of runs, tables and
paragraph properties. -/
private theorem startsIn_of_dropped (flat : FlatSibling True node)
    (dropped : node.outlivesReplacement = false) :
    startsIn Kind.isLasting bookmark node = 0 := by
  have kinds : node.kind = .paragraph ∨ node.kind = .run ∨ node.kind = .table := by
    rw [outlivesReplacement] at dropped
    revert dropped
    cases node.kind <;> decide
  cases node with
  | element name attrs children =>
      rw [kind_element] at kinds
      rcases kinds with kind | kind | kind
      · rw [startsIn_paragraph rfl kind]
        exact startsAmong_eq_zero fun child member =>
          startsIn_props (flat.props_of_mark kind child member)
      · rw [startsIn_of_kind (by rw [kind]; decide), kind]
        rfl
      · rw [startsIn_of_kind (by rw [kind]; decide), kind]
        rfl
  | text | comment => rfl

/-- Putting another node at a position in the flat form changes nothing outside of runs, tables and
paragraph properties if it has as many start markers there. -/
private theorem startsIn_replaceAt_of_flat {passes : List Node → Node → Prop} {path : Path}
    (reached : Reaches passes node path target)
    (keeps : fresh.label = target.label)
    (other : ∃ child ∈ target.children, child.isParagraphProps = false)
    (each : (∀ child ∈ target.children, FlatSibling True child) →
      startsAmong Kind.isLasting bookmark fresh.children =
        startsAmong Kind.isLasting bookmark target.children)
    (flat : FlatSibling True node) :
    startsIn Kind.isLasting bookmark (node.replaceAt path fresh) =
      startsIn Kind.isLasting bookmark node := by
  induction reached with
  | here =>
      cases flat with
      | mark kind allProps =>
          rcases other with ⟨child, member, notProps⟩
          rw [allProps child member] at notProps
          cases notProps
      | container noParagraph noProps below =>
          cases fresh with
          | element name attrs children =>
              obtain ⟨rfl, rfl⟩ := Label.element.inj keeps
              exact startsIn_congr (each below)
          | text | comment => cases keeps
      | props _ isProps => exact startsIn_props_congr keeps isProps
      | text | comment =>
          rcases other with ⟨child, member, _⟩
          cases member
  | @down name attrs left child right rest target passing inner ih =>
      cases flat with
      | mark kind allProps =>
          have isProps : child.isParagraphProps = true := allProps child (by simp)
          rw [replaceAt_down]
          apply startsIn_congr
          rw [startsAmong_append, startsAmong_append, startsAmong_cons, startsAmong_cons,
            startsIn_props_congr (inner.label_replaceAt keeps) isProps]
      | container noParagraph noProps below =>
          have childFlat : FlatSibling True child := below child (by simp)
          rw [replaceAt_down]
          apply startsIn_congr
          rw [startsAmong_append, startsAmong_append, startsAmong_cons, startsAmong_cons,
            ih keeps other each childFlat]
      | props _ isProps =>
          exact startsIn_props_congr ((Reaches.down passing inner).label_replaceAt keeps) isProps

end Lasting

end Node

namespace Bookmark

open Node

variable {root filled : Node} {bookmark other text : String} {site : Site} {path : Path}

/-- Nothing that is dropped in the flat form counts, and the placeholder does not either. -/
private theorem startsAmong_withPlaceholder
    (flat : ∀ child ∈ (site.holding site.inside).children, FlatSibling True child) :
    startsAmong Kind.isLasting other site.withPlaceholder.children =
      startsAmong Kind.isLasting other (site.holding site.inside).children := by
  rcases Site.forall_mem_siblings.1 flat with ⟨_, _, inside, _, _⟩
  have parts := startsAmong_filter Kind.isLasting other outlivesReplacement site.inside
  have dropped : startsAmong Kind.isLasting other
      (site.inside.filter (!outlivesReplacement ·)) = 0 := by
    refine startsAmong_eq_zero fun node member => ?_
    rcases List.mem_filter.1 member with ⟨among, isDropped⟩
    exact startsIn_of_dropped (inside node among) (by simpa using isDropped)
  have placeholder : startsIn Kind.isLasting other (placeholderFor site.inside) = 0 :=
    startsIn_of_kind (by decide) _ _
  simp only [Site.withPlaceholder, Site.holding, children_element, Site.siblings,
    startsAmong_append, startsAmong_cons]
  omega

/-- A substitution keeps the start markers outside of runs, tables and paragraph properties. -/
theorem Fills.startsAmong_lasting (fills : Fills root bookmark text filled site path)
    (notHolder : root.kind ≠ .placeholder) (other : String) :
    startsAmong Kind.isLasting other filled.children =
      startsAmong Kind.isLasting other root.children := by
  rw [fills.startsAmong_children notHolder rfl rfl, ← startsAmong_children_flatten rfl root]
  have flat : ∀ child ∈ root.flatten.children, FlatSibling True child :=
    fun _ => flatSibling_of_mem_flatten
  have notProps := fills.marks.exists_not_props
  have reached := fills.marks.reached
  have each : (∀ child ∈ (site.holding site.inside).children, FlatSibling True child) →
      startsAmong Kind.isLasting other site.withPlaceholder.children =
        startsAmong Kind.isLasting other (site.holding site.inside).children :=
    startsAmong_withPlaceholder
  have keeps : site.withPlaceholder.label = (site.holding site.inside).label := rfl
  generalize site.holding site.inside = target at reached notProps each keeps
  generalize root.flatten = document at reached flat
  cases reached with
  | here => exact each flat
  | @down name attrs left child right rest target passing inner =>
      rw [children_element, List.forall_mem_append, List.forall_mem_cons] at flat
      rw [replaceAt_down, children_element, children_element, startsAmong_append,
        startsAmong_append, startsAmong_cons, startsAmong_cons,
        startsIn_replaceAt_of_flat inner keeps notProps each flat.2.1]

end Bookmark

end TemplateFill
