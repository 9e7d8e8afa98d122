import Mathlib.Data.List.Infix
import TemplateFill.Bookmark.Marker
import TemplateFill.Proofs.Bookmark.FlatForm
import TemplateFill.Proofs.Markup.Place

/-!
# Places in the flat form

Every position of a document that stays clear of paragraph properties has a place in the flat
form.  On the way there the paragraphs drop out, so what was in them comes to stand beside them.
Document order and the first node of a sort are kept.
-/

namespace TemplateFill.Node

/-- Where the node at a position below `node` stands in the flat form; the nodes that stand for
`node` begin at the index `place` among their siblings. -/
def placeFrom (place : Nat) (node : Node) : Path → Path
  | [] => [place]
  | index :: rest =>
      node.children[index]?.elim [] fun child =>
        if node.isParagraph then
          child.placeFrom (place + (flattenContent (node.children.take index)).length) rest
        else place :: child.placeFrom (flattenAll (node.children.take index)).length rest

/-- Where the node at a position of a document stands in its flat form. -/
def flatPlace (root : Node) : Path → Path
  | [] => []
  | index :: rest =>
      root.children[index]?.elim [] fun child =>
        child.placeFrom (flattenAll (root.children.take index)).length rest

/-- The step of a way that stays clear of paragraph properties. -/
def ClearOfProps (_ : List Node) (child : Node) : Prop := child.isParagraphProps = false

/-- No marker of a bookmark is in paragraph properties. -/
def MarkersOutsideProps (node : Node) : Prop :=
  ∀ props ∈ node.selfAndDescendants, props.isParagraphProps = true →
    ∀ inner ∈ props.descendants, inner.kind ≠ .bookmarkStart ∧ inner.kind ≠ .bookmarkEnd

/-- On the way to a marker there are no paragraph properties. -/
theorem Reaches.clearOfProps {passes : List Node → Node → Prop} {node marker : Node} {path : Path}
    (reached : Reaches passes node path marker) (outside : MarkersOutsideProps node)
    (kinds : marker.kind = .bookmarkStart ∨ marker.kind = .bookmarkEnd) :
    Reaches ClearOfProps node path marker := by
  induction reached with
  | here => exact .here
  | @down name attrs left child right rest marker _ inner ih =>
      have below : ∀ props ∈ child.selfAndDescendants,
          props ∈ (element name attrs (left ++ child :: right)).selfAndDescendants := by
        intro props member
        exact mem_selfAndDescendants_element.2 (.inr ⟨child, by simp, member⟩)
      refine .down ?_ (ih (fun props member => outside props (below props member)) kinds)
      apply Bool.eq_false_iff.2
      intro isProps
      have isKind : child.kind = .paragraphProps := by simpa [isParagraphProps] using isProps
      rcases List.mem_cons.1 inner.target_mem with rfl | within
      · rw [isKind] at kinds
        rcases kinds with kind | kind <;> cases kind
      · have refused := outside child (below child (self_mem_selfAndDescendants child)) isProps
          marker within
        exact kinds.elim refused.1 refused.2

/-- And on the way to the parent of a marker. -/
theorem Reaches.clearOfProps_parent {passes : List Node → Node → Prop} {node marker : Node}
    {path : Path} {name : QName} {attrs : List Attr} {left right : List Node}
    (reached : Reaches passes node path (element name attrs (left ++ marker :: right)))
    (outside : MarkersOutsideProps node)
    (kinds : marker.kind = .bookmarkStart ∨ marker.kind = .bookmarkEnd) :
    Reaches ClearOfProps node path (element name attrs (left ++ marker :: right)) := by
  have way : Reaches (fun _ _ => True) node path (element name attrs (left ++ marker :: right)) :=
    reached.mono fun _ _ _ => trivial
  obtain ⟨name', attrs', left', right', _, _, toParent⟩ :=
    ((way.concat trivial).clearOfProps outside kinds).exists_parent
  rwa [toParent.target_eq way] at toParent

section Places

variable {name : QName} {attrs : List Attr} {left right : List Node} {child : Node}

theorem placeFrom_content (paragraph : name.kind = .paragraph) (place : Nat) (rest : Path) :
    placeFrom place (element name attrs (left ++ child :: right)) (left.length :: rest) =
      child.placeFrom (place + (flattenContent left).length) rest := by
  simp [placeFrom, isParagraph, paragraph]

theorem placeFrom_below (other : name.kind ≠ .paragraph) (place : Nat) (rest : Path) :
    placeFrom place (element name attrs (left ++ child :: right)) (left.length :: rest) =
      place :: child.placeFrom (flattenAll left).length rest := by
  simp [placeFrom, isParagraph, other]

theorem flatPlace_below (rest : Path) :
    flatPlace (element name attrs (left ++ child :: right)) (left.length :: rest) =
      child.placeFrom (flattenAll left).length rest := by
  simp [flatPlace]

/-- The content of a paragraph around a child that is no properties. -/
theorem filter_content_around (other : child.isParagraphProps = false) :
    (left ++ child :: right).filter (!·.isParagraphProps) =
      left.filter (!·.isParagraphProps) ++ child :: right.filter (!·.isParagraphProps) := by
  rw [List.filter_append]
  exact congrArg _ (List.filter_cons_of_pos (by simp [other]))

theorem flattenContent_around (other : child.isParagraphProps = false) :
    flattenContent (left ++ child :: right) =
      flattenContent left ++ (flattenNode child ++ flattenContent right) := by
  rw [flattenContent_eq, filter_content_around other, flattenAll_append, flattenAll,
    flattenContent_eq, flattenContent_eq]

theorem flattenNode_content (paragraph : name.kind = .paragraph)
    (other : child.isParagraphProps = false) :
    flattenNode (element name attrs (left ++ child :: right)) =
      flattenContent left ++ (flattenNode child ++ (flattenContent right ++
        [element name attrs ((left ++ child :: right).filter isParagraphProps)])) := by
  rw [flattenNode_paragraph paragraph, ← flattenContent_eq, flattenContent_around other,
    List.append_assoc, List.append_assoc]

/-- The same with what stands before and behind the paragraph. -/
theorem append_flattenNode_content (paragraph : name.kind = .paragraph)
    (other : child.isParagraphProps = false) (before after : List Node) :
    before ++ (flattenNode (element name attrs (left ++ child :: right)) ++ after) =
      (before ++ flattenContent left) ++ (flattenNode child ++ (flattenContent right ++
        element name attrs ((left ++ child :: right).filter isParagraphProps) :: after)) := by
  simp [flattenNode_content paragraph other]

theorem flattenNode_below (other : name.kind ≠ .paragraph) :
    flattenNode (element name attrs (left ++ child :: right)) =
      [element name attrs (flattenAll left ++ (flattenNode child ++ flattenAll right))] := by
  rw [flattenNode, if_neg other, flattenAll_append, flattenAll]

theorem flatten_below :
    flatten (element name attrs (left ++ child :: right)) =
      element name attrs (flattenAll left ++ (flattenNode child ++ flattenAll right)) := by
  rw [flatten_element, flattenAll_append, flattenAll]

end Places

theorem length_flattenNode_pos (node : Node) : 0 < (flattenNode node).length := by
  cases node with
  | element name attrs children =>
      rw [flattenNode]
      split <;> simp
  | text | comment => simp [flattenNode]

/-! ## The first node of a sort -/

section First

variable {accept : Node → Bool} {left : List Node}

private theorem noneAmong_flattenAll (byLabel : ByLabel accept) (none : NoneAmong accept left) :
    NoneAmong accept (flattenAll left) :=
  byLabel.noneAmong_iff.2 (everyLabel_flattenAll (byLabel.noneAmong_iff.1 none))

private theorem noneAmong_flattenContent (byLabel : ByLabel accept) (none : NoneAmong accept left) :
    NoneAmong accept (flattenContent left) := by
  rw [flattenContent_eq]
  apply noneAmong_flattenAll byLabel
  exact fun node member => none node (List.mem_filter.1 member).1

/-- What is first below a child is first below its parent, if nothing before it is accepted. -/
theorem findPlaced?_down {name : QName} {attrs : List Attr} {right : List Node} {child found : Node}
    {path : Path} (none : NoneAmong accept left) (refused : accept child = false)
    (inner : child.findPlaced? accept = some (path, found)) :
    (element name attrs (left ++ child :: right)).findPlaced? accept =
      some (left.length :: path, found) := by
  rw [findPlaced?_eq_some_iff] at inner ⊢
  rcases inner with ⟨way, inName, inAttrs, before, after, rfl, reached, rest⟩
  exact ⟨left.length :: way, inName, inAttrs, before, after, rfl,
    .down ⟨none, refused⟩ reached, rest⟩

/-- Among flat siblings the first node of a sort is the one that was first before. -/
private theorem findPlaced?_flatSiblings (byLabel : ByLabel accept) {node found : Node}
    {path : Path} {inName : QName} {inAttrs : List Attr} {inLeft inRight : List Node}
    (reached : Reaches (fun left child => PassesBy accept left child ∧ ClearOfProps left child)
      node path (element inName inAttrs (inLeft ++ found :: inRight)))
    (refused : accept node = false) (none : NoneAmong accept inLeft)
    (accepted : accept found = true) (noParagraph : found.isParagraph = false)
    (noProps : found.isParagraphProps = false) (name : QName) (attrs : List Attr)
    {before : List Node} (clear : NoneAmong accept before) (after : List Node) :
    (element name attrs (before ++ (flattenNode node ++ after))).findPlaced? accept =
      some (node.placeFrom before.length (path ++ [inLeft.length]), found.flatten) := by
  have flatAccepted : accept found.flatten = true := by
    rw [byLabel _ _ (label_flatten found), accepted]
  have flatFound := flattenNode_of_not_paragraph noParagraph
  generalize goal : element inName inAttrs (inLeft ++ found :: inRight) = target at reached
  induction reached generalizing name attrs before after with
  | here =>
      subst goal
      by_cases paragraph : inName.kind = .paragraph
      · rw [append_flattenNode_content paragraph noProps, flatFound, List.nil_append,
          placeFrom_content paragraph, List.singleton_append,
          findPlaced?_of_reaches .here
            (noneAmong_append.2 ⟨clear, noneAmong_flattenContent byLabel none⟩) flatAccepted,
          List.length_append]
        rfl
      · have inner : (element inName inAttrs (flattenAll inLeft ++ (flattenNode found ++
            flattenAll inRight))).findPlaced? accept =
              some ([(flattenAll inLeft).length], found.flatten) := by
          rw [flatFound]
          exact findPlaced?_of_reaches .here (noneAmong_flattenAll byLabel none) flatAccepted
        rw [List.nil_append, placeFrom_below paragraph, flattenNode_below paragraph,
          List.singleton_append, findPlaced?_down clear _ inner]
        · rfl
        · rw [← refused]
          exact byLabel _ _ rfl
  | @down midName midAttrs left child right rest target passing inner ih =>
      rcases passing with ⟨⟨skipped, childRefused⟩, childClear⟩
      by_cases paragraph : midName.kind = .paragraph
      · rw [append_flattenNode_content paragraph childClear, List.cons_append,
          placeFrom_content paragraph, ← List.length_append]
        exact ih childRefused name attrs (noneAmong_append.2 ⟨clear,
          noneAmong_flattenContent byLabel skipped⟩) _ goal
      · rw [List.cons_append, placeFrom_below paragraph, flattenNode_below paragraph,
          List.singleton_append]
        refine findPlaced?_down clear ?_
          (ih childRefused midName midAttrs (noneAmong_flattenAll byLabel skipped) _ goal)
        rw [← refused]
        exact byLabel _ _ rfl

/-- The first node of a sort stands in the flat form where its position leads to, if it is
neither a paragraph nor in paragraph properties. -/
theorem findPlaced?_flatten (byLabel : ByLabel accept) {root found : Node} {path : Path}
    (first : root.findPlaced? accept = some (path, found))
    (clear : Reaches ClearOfProps root path found) (noParagraph : found.isParagraph = false) :
    root.flatten.findPlaced? accept = some (root.flatPlace path, found.flatten) := by
  obtain ⟨way, name, attrs, left, right, rfl, reached, none, accepted⟩ :=
    findPlaced?_eq_some_iff.1 first
  obtain ⟨_, _, _, _, _, noProps, toParent⟩ := clear.exists_parent
  have steps := reached.and toParent
  have flatAccepted : accept found.flatten = true := by
    rw [byLabel _ _ (label_flatten found), accepted]
  cases steps with
  | here =>
      rw [List.nil_append, flatPlace_below, flatten_below, flattenNode_of_not_paragraph noParagraph]
      exact findPlaced?_of_reaches .here (noneAmong_flattenAll byLabel none) flatAccepted
  | down passing inner =>
      rw [List.cons_append, flatPlace_below, flatten_below]
      exact findPlaced?_flatSiblings byLabel inner passing.1.2 none accepted noParagraph noProps _ _
        (noneAmong_flattenAll byLabel passing.1.1) _

end First

/-! ## What stands above -/

section Above

theorem container?_of_isParagraph {node : Node} (paragraph : node.isParagraph = true) :
    node.container? = none := by
  have kind : node.kind = .paragraph := by simpa [isParagraph] using paragraph
  rw [container?, kind]

private theorem containers_cons {node node' : Node} {rest rest' : List Node}
    (same : node.label = node'.label)
    (later : rest.filterMap container? = rest'.filterMap container?) :
    (node :: rest).filterMap container? = (node' :: rest').filterMap container? := by
  have top : node.container? = node'.container? := by
    rw [container?, container?, kind_eq_of_label_eq same]
  rw [List.filterMap_cons, List.filterMap_cons, top, later]

private theorem enclosing_cons {node child : Node} {index : Nat} (path : Path)
    (found : node.children[index]? = some child) :
    node.enclosing (index :: path) = node :: child.enclosing path := by
  rw [enclosing, found, Option.elim_some]

theorem enclosing_down (name : QName) (attrs : List Attr) (left : List Node) (child : Node)
    (right : List Node) (rest : Path) :
    (element name attrs (left ++ child :: right)).enclosing (left.length :: rest) =
      element name attrs (left ++ child :: right) :: child.enclosing rest :=
  enclosing_cons rest (by simp)

/-- The containers above the place of a position are those above the position. -/
private theorem containers_flatSiblings {node target : Node} {path : Path}
    (reached : Reaches ClearOfProps node path target) {outer : Node} {before after : List Node}
    (siblings : outer.children = before ++ (flattenNode node ++ after)) :
    (outer.enclosing (node.placeFrom before.length path)).filterMap container? =
      (outer :: node.enclosing path).filterMap container? := by
  induction reached generalizing outer before after with
  | @here node =>
      rw [placeFrom, enclosing, enclosing]
      cases outer.children[before.length]? <;> rfl
  | @down name attrs left child right rest target clear inner ih =>
      rw [enclosing_down]
      by_cases paragraph : name.kind = .paragraph
      · rw [append_flattenNode_content paragraph clear] at siblings
        have skipped : (element name attrs (left ++ child :: right)).container? = none :=
          container?_of_isParagraph (by simp [isParagraph, paragraph])
        rw [placeFrom_content paragraph, ← List.length_append, ih siblings]
        apply containers_cons rfl
        rw [List.filterMap_cons, skipped]
      · rw [flattenNode_below paragraph] at siblings
        have entered : outer.children[before.length]? =
            some (element name attrs
              (flattenAll left ++ (flattenNode child ++ flattenAll right))) := by
          simp [siblings]
        rw [placeFrom_below paragraph, enclosing_cons _ entered]
        have inside := children_element name attrs
          (flattenAll left ++ (flattenNode child ++ flattenAll right))
        exact containers_cons rfl ((ih inside).trans (containers_cons rfl rfl))

/-- The nearest container around a position stays the nearest in the flat form. -/
theorem nearestContainer?_flatten {root target : Node} {path : Path}
    (reached : Reaches ClearOfProps root path target) :
    Bookmark.nearestContainer? root.flatten (root.flatPlace path) =
      Bookmark.nearestContainer? root path := by
  have same : (root.flatten.enclosing (root.flatPlace path)).filterMap container? =
      (root.enclosing path).filterMap container? := by
    cases reached with
    | here => rfl
    | @down name attrs left child right rest _ clear inner =>
        rw [flatPlace_below, flatten_below, enclosing_down, containers_flatSiblings inner rfl]
        exact containers_cons rfl rfl
  rw [Bookmark.nearestContainer?, Bookmark.nearestContainer?, ← List.head?_filterMap,
    ← List.head?_filterMap, List.filterMap_reverse, List.filterMap_reverse, same]

end Above

/-! ## Document order -/

section Order

variable {root node target target' : Node} {path path' : Path}

/-- What stands for a node and what is below it begins among what stands for the node. -/
theorem Reaches.exists_placeFrom (reached : Reaches ClearOfProps node path target)
    (place : Nat) :
    ∃ head tail, node.placeFrom place path = head :: tail ∧ place ≤ head ∧
      head < place + (flattenNode node).length := by
  induction reached generalizing place with
  | @here node =>
      have positive := length_flattenNode_pos node
      exact ⟨place, [], rfl, Nat.le_refl place, by omega⟩
  | @down name attrs left child right rest target clear inner ih =>
      by_cases paragraph : name.kind = .paragraph
      · obtain ⟨head, tail, same, lower, upper⟩ := ih (place + (flattenContent left).length)
        refine ⟨head, tail, ?_, by omega, ?_⟩
        · rw [placeFrom_content paragraph, same]
        · rw [flattenNode_content paragraph clear, List.length_append, List.length_append]
          omega
      · refine ⟨place, _, placeFrom_below paragraph place rest, Nat.le_refl place, ?_⟩
        rw [flattenNode_below paragraph]
        exact Nat.lt_succ_self place

/-- Among what stands for siblings, what stands for one ends before what stands for a later
one begins. -/
private theorem Reaches.placeFrom_lt_of_between {place place' : Nat} {child child' : Node}
    (reached : Reaches ClearOfProps child path target)
    (reached' : Reaches ClearOfProps child' path' target')
    (apart : place + (flattenNode child).length ≤ place') :
    child.placeFrom place path < child'.placeFrom place' path' := by
  obtain ⟨head, tail, same, _, upper⟩ := reached.exists_placeFrom place
  obtain ⟨head', tail', same', lower, _⟩ := reached'.exists_placeFrom place'
  rw [same, same', List.cons_lt_cons_iff]
  left
  omega

/-- Document order is kept below a node, but for a paragraph and what is in it. -/
private theorem Reaches.placeFrom_lt (reached : Reaches ClearOfProps node path target)
    (reached' : Reaches ClearOfProps node path' target') (other : target.isParagraph = false)
    (before : path < path') (place : Nat) :
    node.placeFrom place path < node.placeFrom place path' := by
  induction reached generalizing path' place with
  | @here node =>
      cases reached' with
      | here => exact absurd before (List.lt_irrefl _)
      | @down name attrs left child right rest _ _ inner =>
          have kind : name.kind ≠ .paragraph := by simpa [isParagraph] using other
          obtain ⟨head, tail, same, _⟩ := inner.exists_placeFrom (flattenAll left).length
          rw [placeFrom, placeFrom_below kind, same]
          exact List.cons_lt_cons_iff.2 (.inr ⟨rfl, List.nil_lt_cons _ _⟩)
  | @down name attrs left child right rest target clear inner ih =>
      generalize whole : element name attrs (left ++ child :: right) = node at reached'
      cases reached' with
      | here => exact absurd before (List.not_lt_nil _)
      | @down _ _ left' child' right' rest' _ clear' inner' =>
          rcases element.inj whole with ⟨rfl, rfl, siblings⟩
          rcases List.cons_lt_cons_iff.1 before with earlier | ⟨same, later⟩
          · rcases exists_between siblings earlier with ⟨middle, rfl, rfl⟩
            by_cases paragraph : name.kind = .paragraph
            · rw [placeFrom_content paragraph, ← siblings, placeFrom_content paragraph]
              apply inner.placeFrom_lt_of_between inner'
              rw [flattenContent_around clear, List.length_append, List.length_append]
              omega
            · rw [placeFrom_below paragraph, ← siblings, placeFrom_below paragraph]
              refine List.cons_lt_cons_iff.2 (.inr ⟨rfl, ?_⟩)
              apply inner.placeFrom_lt_of_between inner'
              rw [flattenAll_append, flattenAll, List.length_append, List.length_append]
              omega
          · rcases append_cons_inj siblings same with ⟨rfl, rfl, rfl⟩
            by_cases paragraph : name.kind = .paragraph
            · rw [placeFrom_content paragraph, placeFrom_content paragraph]
              exact ih inner' other later _
            · rw [placeFrom_below paragraph, placeFrom_below paragraph]
              exact List.cons_lt_cons_iff.2 (.inr ⟨rfl, ih inner' other later _⟩)

/-- Document order is kept, but for a paragraph and what is in it. -/
theorem Reaches.flatPlace_lt (reached : Reaches ClearOfProps root path target)
    (reached' : Reaches ClearOfProps root path' target')
    (other : path = [] ∨ target.isParagraph = false) (before : path < path') :
    root.flatPlace path < root.flatPlace path' := by
  cases reached with
  | here =>
      cases reached' with
      | here => exact absurd before (List.lt_irrefl _)
      | down _ inner =>
          obtain ⟨head, tail, same, _⟩ := inner.exists_placeFrom (flattenAll _).length
          rw [flatPlace, flatPlace_below, same]
          exact List.nil_lt_cons head tail
  | @down name attrs left child right rest _ clear inner =>
      have noParagraph : target.isParagraph = false := other.resolve_left (List.cons_ne_nil _ _)
      generalize whole : element name attrs (left ++ child :: right) = root at reached'
      cases reached' with
      | here => exact absurd before (List.not_lt_nil _)
      | @down _ _ left' child' right' rest' _ clear' inner' =>
          rcases element.inj whole with ⟨rfl, rfl, siblings⟩
          rcases List.cons_lt_cons_iff.1 before with earlier | ⟨same, later⟩
          · rcases exists_between siblings earlier with ⟨middle, rfl, rfl⟩
            rw [flatPlace_below, ← siblings, flatPlace_below]
            apply inner.placeFrom_lt_of_between inner'
            rw [flattenAll_append, flattenAll, List.length_append, List.length_append]
            omega
          · rcases append_cons_inj siblings same with ⟨rfl, rfl, rfl⟩
            rw [flatPlace_below, flatPlace_below]
            exact inner.placeFrom_lt inner' noParagraph later _

/-- Different positions have different places, but for a paragraph and what is in it. -/
theorem Reaches.flatPlace_inj (reached : Reaches ClearOfProps root path target)
    (reached' : Reaches ClearOfProps root path' target')
    (other : path = [] ∨ target.isParagraph = false)
    (other' : path' = [] ∨ target'.isParagraph = false)
    (same : root.flatPlace path = root.flatPlace path') : path = path' := by
  apply List.le_antisymm
  · rw [← List.not_lt]
    intro behind
    have places := reached'.flatPlace_lt reached other' behind
    rw [same] at places
    exact List.lt_irrefl _ places
  · rw [← List.not_lt]
    intro before
    have places := reached.flatPlace_lt reached' other before
    rw [same] at places
    exact List.lt_irrefl _ places

end Order

/-! ## Levels -/

/-- The position of the nearest node above a position that is the root or no paragraph. -/
def levelOf (root : Node) (path : Path) : Path :=
  (path.dropLast.inits.reverse.find? fun above =>
    above.isEmpty || !(root.at? above).any isParagraph).getD []

section Levels

variable {root node target : Node} {path : Path}

/-- The level of a child is its parent, unless that is a paragraph. -/
theorem levelOf_concat (root : Node) (path : Path) (index : Nat) :
    root.levelOf (path ++ [index]) =
      if path.isEmpty || !(root.at? path).any isParagraph then path else root.levelOf path := by
  rw [levelOf, List.dropLast_concat]
  rcases List.eq_nil_or_concat path with rfl | ⟨front, last, rfl⟩
  · rfl
  · rw [List.concat_eq_append, List.inits_append]
    have short : (List.inits [last]).tail.map (front ++ ·) = [front ++ [last]] := rfl
    rw [short, List.reverse_append, List.reverse_singleton, List.singleton_append, List.find?_cons]
    cases holds : (front ++ [last]).isEmpty || !(root.at? (front ++ [last])).any isParagraph with
    | true => rfl
    | false => rw [levelOf, List.dropLast_concat]; rfl

private theorem Reaches.placeFrom_ne_nil (reached : Reaches ClearOfProps node path target)
    (place : Nat) : node.placeFrom place path ≠ [] := by
  obtain ⟨head, tail, same, _⟩ := reached.exists_placeFrom place
  rw [same]
  exact List.cons_ne_nil head tail

section Children

variable {name : QName} {attrs : List Attr} {left right : List Node} {child : Node}

/-- A child stands below its parent in the flat form, if that is no paragraph. -/
private theorem Reaches.placeFrom_concat (other : name.kind ≠ .paragraph)
    (reached : Reaches ClearOfProps node path (element name attrs (left ++ child :: right)))
    (place : Nat) :
    node.placeFrom place (path ++ [left.length]) =
      node.placeFrom place path ++ [(flattenAll left).length] := by
  generalize goal : element name attrs (left ++ child :: right) = target at reached
  induction reached generalizing place with
  | here =>
      subst goal
      rw [List.nil_append, placeFrom_below other]
      rfl
  | @down inName inAttrs inLeft inChild inRight rest target passing inner ih =>
      rw [List.cons_append]
      by_cases paragraph : inName.kind = .paragraph
      · rw [placeFrom_content paragraph, placeFrom_content paragraph, ih _ goal]
      · rw [placeFrom_below paragraph, placeFrom_below paragraph, ih _ goal, List.cons_append]

/-- A child of a paragraph stands beside it. -/
private theorem Reaches.dropLast_placeFrom (paragraph : name.kind = .paragraph)
    (clear : child.isParagraphProps = false)
    (reached : Reaches ClearOfProps node path (element name attrs (left ++ child :: right)))
    (place : Nat) :
    (node.placeFrom place (path ++ [left.length])).dropLast =
      (node.placeFrom place path).dropLast := by
  generalize goal : element name attrs (left ++ child :: right) = target at reached
  induction reached generalizing place with
  | here =>
      subst goal
      rw [List.nil_append, placeFrom_content paragraph]
      rfl
  | @down inName inAttrs inLeft inChild inRight rest target passing inner ih =>
      by_cases inParagraph : inName.kind = .paragraph
      · rw [List.cons_append, placeFrom_content inParagraph, placeFrom_content inParagraph]
        exact ih _ goal
      · subst goal
        have longer := (inner.concat clear).placeFrom_ne_nil (flattenAll inLeft).length
        have shorter := inner.placeFrom_ne_nil (flattenAll inLeft).length
        rw [List.cons_append, placeFrom_below inParagraph, placeFrom_below inParagraph,
          List.dropLast_cons_of_ne_nil longer, List.dropLast_cons_of_ne_nil shorter, ih _ rfl]

/-- The same with the root, which is never lifted, as the outermost parent. -/
theorem Reaches.flatPlace_concat (other : path = [] ∨ name.kind ≠ .paragraph)
    (reached : Reaches ClearOfProps root path (element name attrs (left ++ child :: right))) :
    root.flatPlace (path ++ [left.length]) =
      root.flatPlace path ++ [(flattenAll left).length] := by
  cases reached with
  | here =>
      rw [List.nil_append, flatPlace_below]
      rfl
  | down passing inner =>
      rw [List.cons_append, flatPlace_below, flatPlace_below,
        inner.placeFrom_concat (other.resolve_left (List.cons_ne_nil _ _))]

theorem Reaches.dropLast_flatPlace (paragraph : name.kind = .paragraph) (lifted : path ≠ [])
    (clear : child.isParagraphProps = false)
    (reached : Reaches ClearOfProps root path (element name attrs (left ++ child :: right))) :
    (root.flatPlace (path ++ [left.length])).dropLast = (root.flatPlace path).dropLast := by
  cases reached with
  | here => exact absurd rfl lifted
  | down passing inner =>
      rw [List.cons_append, flatPlace_below, flatPlace_below,
        inner.dropLast_placeFrom paragraph clear]

end Children

/-- In the flat form a node is a child of what is its level in the document. -/
theorem Reaches.flatPlace_levelOf (reached : Reaches ClearOfProps root path target) :
    (root.flatPlace path).dropLast = root.flatPlace (root.levelOf path) ∧
      ∃ level, Reaches ClearOfProps root (root.levelOf path) level ∧
        (root.levelOf path = [] ∨ level.isParagraph = false) := by
  induction path using List.reverseRecOn generalizing target with
  | nil => exact ⟨rfl, root, .here, .inl rfl⟩
  | append_singleton front last ih =>
      obtain ⟨name, attrs, left, right, rfl, clear, toParent⟩ := reached.exists_parent
      have isKind : (element name attrs (left ++ target :: right)).isParagraph = true ↔
          name.kind = .paragraph := beq_iff_eq
      rw [levelOf_concat, toParent.at?_eq, Option.any_some]
      cases holds : front.isEmpty ||
          !(element name attrs (left ++ target :: right)).isParagraph with
      | true =>
          have other : front = [] ∨
              (element name attrs (left ++ target :: right)).isParagraph = false := by
            simpa using holds
          refine ⟨?_, _, toParent, other⟩
          rw [toParent.flatPlace_concat (other.imp_right fun no yes => ?_), List.dropLast_concat]
          · rfl
          · rw [isKind.2 yes] at no
            cases no
      | false =>
          have lifted : front ≠ [] ∧
              (element name attrs (left ++ target :: right)).isParagraph = true := by
            simpa using holds
          rw [toParent.dropLast_flatPlace (isKind.1 lifted.2) lifted.1 clear]
          exact ih toParent

end Levels

end TemplateFill.Node
