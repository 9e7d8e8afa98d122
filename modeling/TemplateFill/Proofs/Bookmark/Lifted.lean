import TemplateFill.Proofs.Bookmark.RoundTrip
import TemplateFill.Proofs.Markup.Place

/-!
# Lifted content

The content of a paragraph stands before the mark of the paragraph in the flat form.  In a
document that comes back from its flat form nothing that closes a group stands between them, so
what is put next to such content goes into the same paragraph.
-/

namespace TemplateFill.Node

/-- `child` is a child of a paragraph at or below siblings, outside paragraph properties, and
stands at a place in what stands for the siblings in the flat form. -/
inductive InParagraph (child : Node) : List Node → Path → Prop where
  | lifted {left : List Node} {name : QName} {attrs : List Attr} {before after right : List Node} :
      name.kind = .paragraph →
      InParagraph child (left ++ element name attrs (before ++ child :: after) :: right)
        [(flattenAll left).length + (flattenContent before).length]
  | content {left : List Node} {name : QName} {attrs : List Attr} {children right : List Node}
      {first : Nat} {rest : Path} :
      name.kind = .paragraph →
      InParagraph child (children.filter (!·.isParagraphProps)) (first :: rest) →
      InParagraph child (left ++ element name attrs children :: right)
        (((flattenAll left).length + first) :: rest)
  | deeper {left : List Node} {name : QName} {attrs : List Attr} {children right : List Node}
      {place : Path} :
      name.kind ≠ .paragraph → name.kind ≠ .paragraphProps → InParagraph child children place →
      InParagraph child (left ++ element name attrs children :: right)
        ((flattenAll left).length :: place)

/-- What stands at the place is the child. -/
theorem InParagraph.at?_eq {child : Node} {nodes : List Node} {place : Path}
    (inside : InParagraph child nodes place) (noParagraph : child.isParagraph = false)
    (noProps : child.isParagraphProps = false) (name : QName) (attrs : List Attr) :
    (element name attrs (flattenAll nodes)).at? place = some child.flatten := by
  induction inside generalizing name attrs with
  | @lifted left inner innerAttrs before after right kind =>
      rw [at?, children_element, flattenAll_append,
        List.getElem?_append_right (Nat.le_add_right _ _), Nat.add_sub_cancel_left, flattenAll,
        flattenNode_paragraph kind, List.filter_append,
        flattenAll_append, flattenContent_eq, List.append_assoc, List.append_assoc,
        List.getElem?_append_right (Nat.le_refl _), Nat.sub_self,
        List.filter_cons_of_pos (by simp [noProps]), flattenAll,
        flattenNode_of_not_paragraph noParagraph]
      rfl
  | @content left inner innerAttrs children right first rest kind _ ih =>
      have deeper := ih name attrs
      rw [at?, children_element] at deeper ⊢
      rcases Option.bind_eq_some_iff.1 deeper with ⟨found, isFound, _⟩
      have short : first < (flattenAll (children.filter (!·.isParagraphProps))).length :=
        (List.getElem?_eq_some_iff.1 isFound).1
      rw [flattenAll_append, List.getElem?_append_right (Nat.le_add_right _ _),
        Nat.add_sub_cancel_left, flattenAll, flattenNode_paragraph kind, List.append_assoc,
        List.getElem?_append_left short, deeper]
  | @deeper left inner innerAttrs children right place other _ _ ih =>
      rw [at?, children_element, flattenAll_append, List.getElem?_append_right (Nat.le_refl _),
        Nat.sub_self, flattenAll, flattenNode, if_neg other]
      exact ih inner innerAttrs

/-- The mark of the paragraph that a place among flat siblings belongs to closes the first group
behind it, and no paragraph properties are entered on the way to it. -/
def MarkedAt (siblings : List Node) : Path → Prop
  | [] => False
  | [index] => firstGroupMarked (siblings.drop index) = true
  | index :: next :: rest =>
      ∃ child, siblings[index]? = some child ∧ child.isParagraphProps = false ∧
        MarkedAt child.children (next :: rest)

/-- Siblings on both sides change nothing but the index. -/
theorem MarkedAt.shift {middle : List Node} {first : Nat} {rest : Path}
    (marked : MarkedAt middle (first :: rest)) (left right : List Node) :
    MarkedAt (left ++ (middle ++ right)) ((left.length + first) :: rest) := by
  cases rest with
  | nil =>
      have short : first ≤ middle.length := by
        apply Nat.le_of_not_lt
        intro long
        rw [MarkedAt, List.drop_of_length_le (Nat.le_of_lt long)] at marked
        cases marked
      rw [MarkedAt, List.drop_length_add_append, List.drop_append_of_le_length short]
      exact firstGroupMarked_append marked
  | cons next others =>
      rcases marked with ⟨child, found, other, deeper⟩
      refine ⟨child, ?_, other, deeper⟩
      have inside : first < middle.length := (List.getElem?_eq_some_iff.1 found).1
      rw [List.getElem?_append_right (Nat.le_add_right _ _), Nat.add_sub_cancel_left,
        List.getElem?_append_left inside, found]

private theorem keepsShape_of_mem {node : Node} {left right : List Node}
    (keeps : ∀ inner ∈ unsealedOfAll (left ++ node :: right), KeepsShape inner) :
    ∀ inner ∈ unsealed node, KeepsShape inner := by
  intro inner member
  exact keeps inner (mem_unsealedOfAll.2 ⟨node, by simp, member⟩)

/-- The content of a paragraph that is one group is followed by the mark of the paragraph. -/
theorem InParagraph.markedAt {child : Node} {nodes : List Node} {place : Path}
    (inside : InParagraph child nodes place)
    (keeps : ∀ inner ∈ unsealedOfAll nodes, KeepsShape inner) :
    MarkedAt (flattenAll nodes) place := by
  induction inside with
  | @lifted left name attrs before after right kind =>
      have shape := keepsShape_of_mem keeps (element name attrs (before ++ child :: after))
        (by simp [unsealed])
      rw [KeepsShape, if_pos (by simp [isParagraph, kind])] at shape
      have inline : AllInline ((child :: after).filter (!·.isParagraphProps)) := by
        intro node member
        have among := (List.mem_filter.1 member).1
        exact shape.inline node (List.mem_append_right before among)
      rw [MarkedAt, flattenAll_append, List.drop_length_add_append, flattenAll,
        flattenNode_paragraph kind, List.filter_append, flattenAll_append, flattenContent_eq,
        List.append_assoc, List.append_assoc, List.drop_append_length, flattenAll_of_inline inline,
        firstGroupMarked_append_inline (allInline_map_flatten inline), List.singleton_append,
        firstGroupMarked_mark kind]
  | @content left name attrs children right first rest kind _ ih =>
      have shape := keepsShape_of_mem keeps
      rw [unsealed, if_pos kind, List.forall_mem_cons, unsealedContent_eq] at shape
      rw [flattenAll_append, flattenAll, flattenNode_paragraph kind, List.append_assoc]
      exact (ih shape.2).shift _ _
  | @deeper left name attrs children right place other noProps _ ih =>
      have shape := keepsShape_of_mem keeps
      rw [unsealed, if_neg other, List.forall_mem_cons] at shape
      have marked := ih shape.2
      rw [flattenAll_append, flattenAll, flattenNode, if_neg other]
      cases place with
      | nil => exact marked.elim
      | cons next rest =>
          refine ⟨.element name attrs (flattenAll children), ?_, ?_, marked⟩
          · rw [List.getElem?_append_right (Nat.le_refl _), Nat.sub_self]
            rfl
          · simpa [isParagraphProps] using noProps

/-- On the way to a marked place there is nothing but open steps, and the mark is found among the
siblings at its end. -/
theorem MarkedAt.reaches {passes : List Node → Node → Prop} {root target : Node} {path : Path}
    {index : Nat} (marked : MarkedAt root.children (path ++ [index]))
    (reached : Reaches passes root path target) :
    Reaches (fun _ child => child.isParagraphProps = false) root path target ∧
      firstGroupMarked (target.children.drop index) = true := by
  induction reached with
  | here => exact ⟨.here, marked⟩
  | @down name attrs left child right rest target _ inner ih =>
      obtain ⟨next, others, longer⟩ : ∃ next others, rest ++ [index] = next :: others := by
        cases rest with
        | nil => exact ⟨index, [], rfl⟩
        | cons next others => exact ⟨next, others ++ [index], rfl⟩
      rw [List.cons_append, longer] at marked
      rcases marked with ⟨found, isFound, other, deeper⟩
      obtain rfl : child = found := by simpa using isFound
      rw [← longer] at deeper
      obtain ⟨way, atEnd⟩ := ih deeper
      exact ⟨.down other way, atEnd⟩

end TemplateFill.Node
