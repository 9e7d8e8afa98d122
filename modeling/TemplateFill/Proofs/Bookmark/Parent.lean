import TemplateFill.Proofs.Bookmark.Lifted
import TemplateFill.Proofs.Bookmark.Refusal

/-!
# The parent of a start marker

In a document that comes back from its flat form, the parent of the start marker of a bookmark
can be told from the flat form: it is a paragraph if the mark of one closes the group of the
marker, and the parent in the flat form if not.
-/

namespace TemplateFill

namespace Node

/-! ## Positions of lifted content -/

/-- Places further to the right. -/
private theorem placeFrom_add {node : Node} {path rest : Path} {place first : Nat} (offset : Nat)
    (same : node.placeFrom place path = first :: rest) :
    node.placeFrom (offset + place) path = (offset + first) :: rest := by
  induction path generalizing node place with
  | nil =>
      rcases List.cons.inj same with ⟨rfl, rfl⟩
      rfl
  | cons index path ih =>
      rw [placeFrom] at same ⊢
      cases found : node.children[index]? with
      | none =>
          rw [found] at same
          cases same
      | some child =>
          rw [found, Option.elim_some] at same
          rw [Option.elim_some]
          split at same
          · rw [if_pos (by assumption), Nat.add_assoc]
            exact ih same
          · rw [if_neg (by assumption)]
            rcases List.cons.inj same with ⟨rfl, rfl⟩
            rfl

section Lifted

variable {name : QName} {attrs : List Attr} {before after : List Node} {child node : Node}
  {path : Path}

private theorem Reaches.inParagraph_of_sibling (paragraph : name.kind = .paragraph)
    (clear : node.isParagraphProps = false)
    (reached : Reaches ClearOfProps node path (element name attrs (before ++ child :: after)))
    (childClear : child.isParagraphProps = false) (left right : List Node) :
    InParagraph child (left ++ node :: right)
      (node.placeFrom (flattenAll left).length (path ++ [before.length])) := by
  generalize goal : element name attrs (before ++ child :: after) = target at reached
  induction reached generalizing left right with
  | here =>
      subst goal
      rw [List.nil_append, placeFrom_content paragraph]
      exact .lifted paragraph
  | @down inName inAttrs inLeft inChild inRight rest target passing inner ih =>
      rw [List.cons_append]
      by_cases inParagraph : inName.kind = .paragraph
      · subst goal
        have inside := ih passing (inLeft.filter (!·.isParagraphProps))
          (inRight.filter (!·.isParagraphProps)) rfl
        rw [← filter_content_around passing, ← flattenContent_eq] at inside
        obtain ⟨first, others, same, _⟩ :=
          (inner.concat childClear).exists_placeFrom (flattenContent inLeft).length
        rw [same] at inside
        rw [placeFrom_content inParagraph, placeFrom_add _ same]
        exact .content inParagraph inside
      · have noProps : inName.kind ≠ .paragraphProps := by simpa [isParagraphProps] using clear
        rw [placeFrom_below inParagraph]
        exact .deeper inParagraph noProps (ih passing inLeft inRight goal)

/-- A child of a paragraph below the root is lifted to its place in the flat form. -/
theorem Reaches.inParagraph {root : Node} (paragraph : name.kind = .paragraph)
    (lifted : path ≠ []) (childClear : child.isParagraphProps = false)
    (reached : Reaches ClearOfProps root path (element name attrs (before ++ child :: after))) :
    InParagraph child root.children (root.flatPlace (path ++ [before.length])) := by
  cases reached with
  | here => exact absurd rfl lifted
  | @down rootName rootAttrs left entered right rest _ clear inner =>
      rw [List.cons_append, flatPlace_below]
      exact inner.inParagraph_of_sibling paragraph clear childClear left right

end Lifted

/-! ## Parents that are not lifted -/

private theorem Reaches.at?_placeFrom {node target : Node} {path : Path}
    (reached : Reaches ClearOfProps node path target) (other : target.isParagraph = false)
    {outer : Node} {before after : List Node}
    (siblings : outer.children = before ++ (flattenNode node ++ after)) :
    outer.at? (node.placeFrom before.length path) = some target.flatten := by
  induction reached generalizing outer before after with
  | here =>
      rw [flattenNode_of_not_paragraph other] at siblings
      simp [placeFrom, at?, siblings]
  | @down name attrs left child right rest target clear inner ih =>
      by_cases paragraph : name.kind = .paragraph
      · rw [append_flattenNode_content paragraph clear] at siblings
        rw [placeFrom_content paragraph, ← List.length_append]
        exact ih other siblings
      · rw [flattenNode_below paragraph] at siblings
        rw [placeFrom_below paragraph, at?, siblings]
        have inside := ih other (children_element name attrs
          (flattenAll left ++ (flattenNode child ++ flattenAll right)))
        simpa using inside

/-- What is not lifted stands, flattened, where its position leads to. -/
theorem Reaches.at?_flatPlace {root target : Node} {path : Path}
    (reached : Reaches ClearOfProps root path target)
    (other : path = [] ∨ target.isParagraph = false) :
    root.flatten.at? (root.flatPlace path) = some target.flatten := by
  cases reached with
  | here => rfl
  | @down name attrs left child right rest target clear inner =>
      rw [flatPlace_below, flatten_below]
      exact inner.at?_placeFrom (other.resolve_left (List.cons_ne_nil _ _))
        (children_element name attrs _)

private theorem Reaches.mem_unsealed {node target : Node} {path : Path}
    (reached : Reaches ClearOfProps node path target) : target ∈ unsealed node := by
  induction reached with
  | @here node => cases node <;> simp [unsealed]
  | @down name attrs left child right rest target clear inner ih =>
      rw [unsealed]
      apply List.mem_cons_of_mem
      split
      · rw [unsealedContent_eq]
        refine mem_unsealedOfAll.2 ⟨child, ?_, ih⟩
        rw [filter_content_around clear]
        simp
      · exact mem_unsealedOfAll.2 ⟨child, by simp, ih⟩

/-- Paragraphs open groups below the root and every node that is no paragraph. -/
theorem Reaches.opensGroups {root target : Node} {path : Path}
    (reached : Reaches ClearOfProps root path target) (stable : root.flatten.regroup = root)
    (other : path = [] ∨ target.isParagraph = false) : OpensGroups target.children := by
  rcases regroup_flatten_eq_self_iff.1 stable with ⟨opens, keeps⟩
  cases reached with
  | here => exact opens
  | @down name attrs left child right rest target clear inner =>
      have noParagraph := other.resolve_left (List.cons_ne_nil _ _)
      have shape := keeps target (mem_unsealedOfAll.2 ⟨child, by simp, inner.mem_unsealed⟩)
      rwa [KeepsShape, if_neg (by simp [noParagraph])] at shape

end Node

namespace Bookmark

open Node

section StartMarker

variable {root marker : Node} {name : String} {site : Site} {path front : Path}
  {parentName : QName} {parentAttrs : List Attr} {left right : List Node}

/-- A marker that has been lifted out of a paragraph has the paragraph's mark behind it. -/
private theorem Site.Marks.landing_lifted (marks : site.Marks root.flatten name path)
    (stable : root.flatten.regroup = root) (inline : site.start.isBlockLevel = false)
    (paragraph : parentName.kind = .paragraph) (lifted : front ≠ [])
    (clear : marker.isParagraphProps = false)
    (toParent : root.Reaches ClearOfProps front
      (.element parentName parentAttrs (left ++ marker :: right)))
    (samePlace : path ++ [site.left.length] = root.flatPlace (front ++ [left.length])) :
    landing site.name.kind site.start (site.inside ++ site.stop :: site.right) = .paragraph := by
  have inside := (toParent.inParagraph paragraph lifted clear).markedAt
    (regroup_flatten_eq_self_iff.1 stable).2
  rw [← samePlace, ← children_flatten] at inside
  have marked := (inside.reaches marks.reached).2
  have behind : (site.holding site.inside).children.drop site.left.length =
      site.start :: (site.inside ++ site.stop :: site.right) := List.drop_left
  rw [behind, firstGroupMarked_cons_inline inline] at marked
  exact landing_marked inline marked

/-- A marker that has not been lifted is where it was, and no paragraph follows it in its group. -/
private theorem Site.Marks.landing_staying (marks : site.Marks root.flatten name path)
    (stable : root.flatten.regroup = root) (inline : marker.isBlockLevel = false)
    (other : front = [] ∨ parentName.kind ≠ .paragraph)
    (toParent : root.Reaches ClearOfProps front
      (.element parentName parentAttrs (left ++ marker :: right)))
    (samePlace : path ++ [site.left.length] = root.flatPlace (front ++ [left.length])) :
    landing site.name.kind site.start (site.inside ++ site.stop :: site.right) =
      parentName.kind := by
  have other' : front = [] ∨
      (element parentName parentAttrs (left ++ marker :: right)).isParagraph = false := by
    simpa [isParagraph] using other
  have opens := toParent.opensGroups stable other'
  rw [toParent.flatPlace_concat other] at samePlace
  rcases List.append_inj' samePlace rfl with ⟨samePath, sameIndex⟩
  have found := toParent.at?_flatPlace other'
  rw [← samePath, marks.reached.at?_eq] at found
  obtain ⟨sameName, _, siblings⟩ := element.inj (Option.some.inj found)
  rw [flattenAll_append, flattenAll,
    flattenNode_of_not_paragraph (not_isParagraph_of_inline inline)] at siblings
  rcases append_cons_inj siblings (List.cons.inj sameIndex).1 with ⟨_, _, rest⟩
  have unmarked : firstGroupMarked (site.inside ++ site.stop :: site.right) = false := by
    rw [rest]
    exact firstGroupMarked_flattenAll (List.isChain_append.1 opens).2.1 inline
  rw [landing_unmarked (.inr unmarked), sameName]

/-- The parent of a start marker is of the kind that regrouping gives it. -/
theorem Site.Marks.parent_kind {start : Path} (marks : site.Marks root.flatten name path)
    (stable : root.flatten.regroup = root) (outside : MarkersOutsideProps root)
    (first : findStart? root name = some (start, marker)) :
    ∃ parent, root.at? start.dropLast = some parent ∧
      parent.kind = landing site.name.kind site.start (site.inside ++ site.stop :: site.right) := by
  have starts := found_start outside first
  have places := starts.flat
  rw [show root.flatten.findPlaced? (·.startsBookmark name) = _ from findStart?_of_marks marks]
    at places
  rcases Prod.mk.inj (Option.some.inj places) with ⟨samePlace, sameMarker⟩
  have inline : marker.isBlockLevel = false := by
    rw [isBlockLevel, kind_of_startsBookmark starts.accepted]
  have startInline : site.start.isBlockLevel = false := by
    rw [sameMarker, isBlockLevel_flatten, inline]
  rcases List.eq_nil_or_concat start with rfl | ⟨front, index, rfl⟩
  · simp [flatPlace] at samePlace
  · rw [List.concat_eq_append] at *
    obtain ⟨parentName, parentAttrs, left, right, rfl, clear, toParent⟩ :=
      starts.reached.exists_parent
    rw [List.dropLast_concat]
    refine ⟨_, toParent.at?_eq, ?_⟩
    rw [kind_element]
    by_cases lifted : front ≠ [] ∧ parentName.kind = .paragraph
    · rw [lifted.2]
      exact (marks.landing_lifted stable startInline lifted.2 lifted.1 clear toParent
        samePlace).symm
    · have other : front = [] ∨ parentName.kind ≠ .paragraph := by
        by_cases top : front = []
        · exact .inl top
        · exact .inr fun paragraph => lifted ⟨top, paragraph⟩
      exact (marks.landing_staying stable inline other toParent samePlace).symm

end StartMarker

end Bookmark

end TemplateFill
