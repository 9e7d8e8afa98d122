import TemplateFill.Proofs.Bookmark.Filling
import TemplateFill.Proofs.Markup.Joining

/-!
# Counting start markers

Flattening and regrouping move start markers, but they neither make nor lose one, and nor do the
passes behind them and reading a document back.  A substitution loses those that are dropped with
the range, and copies those in the formatting.
-/

namespace TemplateFill.Node

mutual

/-- How many start markers of `bookmark` there are at and below a node.  What is below a
node counts where `enters` holds of its kind. -/
def startsIn (enters : Kind → Bool) (bookmark : String) : Node → Nat
  | .element name attrs children =>
      (startsBookmark bookmark (.element name attrs children)).toNat +
        if enters name.kind then startsAmong enters bookmark children else 0
  | _ => 0

/-- The same for siblings. -/
def startsAmong (enters : Kind → Bool) (bookmark : String) : List Node → Nat
  | [] => 0
  | node :: rest => startsIn enters bookmark node + startsAmong enters bookmark rest

end

section Starts

variable {enters : Kind → Bool} {bookmark : String}

theorem startsBookmark_eq_of_label_eq {left right : Node} (same : left.label = right.label) :
    left.startsBookmark bookmark = right.startsBookmark bookmark :=
  byLabel_startsBookmark bookmark left right same

theorem startsBookmark_of_kind {node : Node} (other : node.kind ≠ .bookmarkStart) :
    node.startsBookmark bookmark = false := by
  rw [startsBookmark, beq_false_of_ne other, Bool.false_and]

theorem startsIn_element (name : QName) (attrs : List Attr) (children : List Node) :
    startsIn enters bookmark (.element name attrs children) =
      (startsBookmark bookmark (.element name attrs children)).toNat +
        if enters name.kind then startsAmong enters bookmark children else 0 := rfl

/-- A node that is no start marker counts for what is below it. -/
theorem startsIn_of_kind {name : QName} (other : name.kind ≠ .bookmarkStart) (attrs : List Attr)
    (children : List Node) :
    startsIn enters bookmark (.element name attrs children) =
      if enters name.kind then startsAmong enters bookmark children else 0 := by
  have noMarker : startsBookmark bookmark (.element name attrs children) = false :=
    startsBookmark_of_kind other
  rw [startsIn_element, noMarker, Bool.toNat_false, Nat.zero_add]

/-- Other children count like these where as many start markers are among them. -/
theorem startsIn_congr {name : QName} {attrs : List Attr} {children others : List Node}
    (same : startsAmong enters bookmark children = startsAmong enters bookmark others) :
    startsIn enters bookmark (.element name attrs children) =
      startsIn enters bookmark (.element name attrs others) := by
  have marker : startsBookmark bookmark (.element name attrs children) =
      startsBookmark bookmark (.element name attrs others) := startsBookmark_eq_of_label_eq rfl
  rw [startsIn_element, startsIn_element, marker, same]

@[simp] theorem startsAmong_nil : startsAmong enters bookmark [] = 0 := rfl

@[simp] theorem startsAmong_cons (node : Node) (rest : List Node) :
    startsAmong enters bookmark (node :: rest) =
      startsIn enters bookmark node + startsAmong enters bookmark rest := rfl

@[simp] theorem startsAmong_append (left right : List Node) :
    startsAmong enters bookmark (left ++ right) =
      startsAmong enters bookmark left + startsAmong enters bookmark right := by
  induction left with
  | nil => exact (Nat.zero_add _).symm
  | cons node rest ih =>
      rw [List.cons_append, startsAmong_cons, startsAmong_cons, ih, Nat.add_assoc]

theorem startsAmong_map_congr {change : Node → Node} {nodes : List Node}
    (each : ∀ node ∈ nodes,
      startsIn enters bookmark (change node) = startsIn enters bookmark node) :
    startsAmong enters bookmark (nodes.map change) = startsAmong enters bookmark nodes := by
  induction nodes with
  | nil => rfl
  | cons node rest ih =>
      rw [List.forall_mem_cons] at each
      rw [List.map_cons, startsAmong_cons, startsAmong_cons, each.1, ih each.2]

/-- What a filter keeps and what it drops count for all. -/
theorem startsAmong_filter (enters : Kind → Bool) (bookmark : String) (keep : Node → Bool)
    (nodes : List Node) :
    startsAmong enters bookmark (nodes.filter keep) +
        startsAmong enters bookmark (nodes.filter (!keep ·)) =
      startsAmong enters bookmark nodes := by
  induction nodes with
  | nil => rfl
  | cons node rest ih =>
      cases keeps : keep node with
      | true => simp [keeps, ← ih, Nat.add_assoc]
      | false => simp [keeps, ← ih, Nat.add_left_comm]

/-- How many start markers of `bookmark` there are at and below siblings. -/
def startCount (bookmark : String) (nodes : List Node) : Nat :=
  (descendantsOfAll nodes).countP (·.startsBookmark bookmark)

private theorem startsAmong_all_of {nodes : List Node}
    (each : ∀ node ∈ nodes, startsIn (fun _ => true) bookmark node =
      node.selfAndDescendants.countP (·.startsBookmark bookmark)) :
    startsAmong (fun _ => true) bookmark nodes = startCount bookmark nodes := by
  induction nodes with
  | nil => rfl
  | cons node rest ih =>
      rw [List.forall_mem_cons] at each
      rw [startsAmong_cons, each.1, ih each.2, startCount, startCount, ← List.countP_append]
      rfl

/-- Where everything is entered all start markers are counted. -/
theorem startsAmong_all (nodes : List Node) :
    startsAmong (fun _ => true) bookmark nodes = startCount bookmark nodes := by
  have one : ∀ node : Node, startsIn (fun _ => true) bookmark node =
      node.selfAndDescendants.countP (·.startsBookmark bookmark) := by
    intro node
    induction node using treeInduction with
    | element name attrs children ih =>
        rw [startsIn_element, if_pos rfl, startsAmong_all_of ih, startCount, selfAndDescendants,
          descendants_element, List.countP_cons, Nat.add_comm]
        cases startsBookmark bookmark (.element name attrs children) <;> rfl
    | text | comment => rfl
  exact startsAmong_all_of fun node _ => one node

/-- Siblings that are changed one by one have no fewer start markers if none of them has. -/
theorem startsAmong_map_le {enters others : Kind → Bool} {change : Node → Node}
    {nodes : List Node}
    (each : ∀ node ∈ nodes,
      startsIn enters bookmark node ≤ startsIn others bookmark (change node)) :
    startsAmong enters bookmark nodes ≤ startsAmong others bookmark (nodes.map change) := by
  induction nodes with
  | nil => exact Nat.le_refl _
  | cons node rest ih =>
      rw [List.forall_mem_cons] at each
      exact Nat.add_le_add each.1 (ih each.2)

/-- Where less is entered there are at most as many start markers. -/
theorem startsAmong_le_startCount (nodes : List Node) :
    startsAmong enters bookmark nodes ≤ startCount bookmark nodes := by
  have one : ∀ node : Node,
      startsIn enters bookmark node ≤ startsIn (fun _ => true) bookmark node := by
    intro node
    induction node using treeInduction with
    | element name attrs children ih =>
        rw [startsIn_element, startsIn_element, if_pos rfl]
        refine Nat.add_le_add_left ?_ _
        split
        · exact (startsAmong_map_le ih).trans_eq (congrArg _ children.map_id')
        · exact Nat.zero_le _
    | text | comment => exact Nat.le_refl _
  rw [← startsAmong_all]
  exact (startsAmong_map_le fun node _ => one node).trans_eq (congrArg _ nodes.map_id')

/-- Where two nodes with one label differ in start markers, their children differ as much. -/
theorem startCount_children_of_label_eq {left right : Node} {more less : Nat}
    (same : left.label = right.label)
    (counts : startsIn (fun _ => true) bookmark left + more =
      startsIn (fun _ => true) bookmark right + less) :
    startCount bookmark left.children + more = startCount bookmark right.children + less := by
  have marker : left.startsBookmark bookmark = right.startsBookmark bookmark :=
    startsBookmark_eq_of_label_eq same
  cases left with
  | element name attrs children =>
      cases right with
      | element name' attrs' children' =>
          rw [startsIn_element, startsIn_element, if_pos rfl, if_pos rfl, marker, startsAmong_all,
            startsAmong_all] at counts
          rw [children_element, children_element]
          omega
      | text | comment => cases same
  | text | comment =>
      cases right with
      | element => cases same
      | text | comment => exact counts

/-! ## The flat form -/

section FlatForm

variable (paragraphs : enters .paragraph = true)

include paragraphs

/-- A paragraph counts for what is below it. -/
theorem startsIn_paragraph {name : QName} (paragraph : name.kind = .paragraph)
    (attrs : List Attr) (children : List Node) :
    startsIn enters bookmark (.element name attrs children) =
      startsAmong enters bookmark children := by
  rw [startsIn_of_kind (by rw [paragraph]; decide), paragraph, if_pos paragraphs]

theorem startsAmong_flattenNode (node : Node) :
    startsAmong enters bookmark (flattenNode node) = startsIn enters bookmark node := by
  induction node using treeInduction with
  | element name attrs children ih =>
      have inner : ∀ part : List Node, (∀ child ∈ part, child ∈ children) →
          startsAmong enters bookmark (flattenAll part) = startsAmong enters bookmark part := by
        intro part subset
        induction part with
        | nil => rfl
        | cons child rest ihRest =>
            rw [List.forall_mem_cons] at subset
            rw [flattenAll, startsAmong_append, ih child subset.1, ihRest subset.2,
              startsAmong_cons]
      by_cases paragraph : name.kind = .paragraph
      · have split := startsAmong_filter enters bookmark isParagraphProps children
        rw [flattenNode_paragraph paragraph, startsAmong_append, startsAmong_cons, startsAmong_nil,
          inner _ fun child member => (List.mem_filter.1 member).1,
          startsIn_paragraph paragraphs paragraph, startsIn_paragraph paragraphs paragraph]
        omega
      · rw [flattenNode, if_neg paragraph, startsAmong_cons, startsAmong_nil, Nat.add_zero]
        exact startsIn_congr (inner children fun _ member => member)
  | text | comment => rfl

theorem startsAmong_flattenAll (nodes : List Node) :
    startsAmong enters bookmark (flattenAll nodes) = startsAmong enters bookmark nodes := by
  induction nodes with
  | nil => rfl
  | cons node rest ih =>
      rw [flattenAll, startsAmong_append, startsAmong_flattenNode paragraphs, ih, startsAmong_cons]

theorem startsAmong_children_flatten (root : Node) :
    startsAmong enters bookmark root.flatten.children =
      startsAmong enters bookmark root.children := by
  rw [children_flatten, startsAmong_flattenAll paragraphs]

/-- Regrouping keeps the number of start markers if it does so below each sibling. -/
private theorem startsAmong_regroupAll_of {nodes : List Node}
    (each : ∀ node ∈ nodes, startsIn enters bookmark node.regroup = startsIn enters bookmark node) :
    startsAmong enters bookmark (regroupAll nodes) = startsAmong enters bookmark nodes := by
  induction nodes using groupInduction with
  | inline nodes inline =>
      rw [regroupAll_inline inline]
      exact startsAmong_map_congr each
  | mark left name attrs props rest inline paragraph ih =>
      rw [List.forall_mem_append, List.forall_mem_cons] at each
      rw [regroupAll_paragraph inline paragraph, startsAmong_cons, startsAmong_append,
        startsAmong_cons, ih each.2.2, startsIn_paragraph paragraphs paragraph, startsAmong_append,
        startsAmong_map_congr each.1, startsIn_paragraph paragraphs paragraph]
      omega
  | block left last rest inline block other ih =>
      rw [List.forall_mem_append, List.forall_mem_cons] at each
      rw [regroupAll_block inline block other, startsAmong_append, startsAmong_cons,
        startsAmong_map_congr each.1, each.2.1, ih each.2.2, startsAmong_append, startsAmong_cons]

private theorem startsIn_regroup (node : Node) :
    startsIn enters bookmark node.regroup = startsIn enters bookmark node := by
  induction node using treeInduction with
  | element name attrs children ih =>
      rw [regroup_element]
      exact startsIn_congr (startsAmong_regroupAll_of paragraphs ih)
  | text | comment => simp [regroup]

theorem startsAmong_children_regroup (root : Node) :
    startsAmong enters bookmark root.regroup.children =
      startsAmong enters bookmark root.children := by
  cases root with
  | element name attrs children =>
      rw [regroup_element, children_element]
      exact startsAmong_regroupAll_of paragraphs fun child _ => startsIn_regroup paragraphs child
  | text | comment => simp [regroup]

end FlatForm

/-! ## The last two passes -/

section Passes

variable {spell : Term → QName} {text : String}

private theorem startsIn_runTextElement (spells : SpellsWords spell) :
    startsIn enters bookmark (runTextElement spell text) = 0 := by
  obtain ⟨attrs, content, same, isText⟩ := exists_runTextElement spell text
  have none : startsAmong enters bookmark content = 0 := by
    rcases isText with ⟨rfl, _⟩ | rfl <;> rfl
  rw [same, startsIn_of_kind (by rw [spells.runText]; decide), none, ite_self]

/-- A run made from a placeholder has the start markers of the placeholder. -/
private theorem startsIn_textRun (spells : SpellsWords spell)
    (runs : enters .run = enters .placeholder) (formatting : List Node) :
    startsIn enters bookmark (textRun spell formatting text) =
      if enters .placeholder then startsAmong enters bookmark formatting else 0 := by
  rw [textRun, startsIn_of_kind (by rw [spells.run]; decide), spells.run, runs, startsAmong_append,
    startsAmong_cons, startsIn_runTextElement spells, startsAmong_nil, Nat.add_zero]

private theorem startsIn_wrapped (spells : SpellsWords spell)
    (paragraphs : enters .paragraph = true) (node : Node) :
    startsIn enters bookmark (.element (spell Term.paragraph) [] [node]) =
      startsIn enters bookmark node := by
  rw [startsIn_paragraph paragraphs spells.paragraph, startsAmong_cons, startsAmong_nil,
    Nat.add_zero]

private theorem startsIn_resolveIn (spells : SpellsWords spell)
    (paragraphs : enters .paragraph = true) (runs : enters .run = enters .placeholder)
    (outer : Kind) (node : Node) :
    startsIn enters bookmark (resolveIn spell text outer node) = startsIn enters bookmark node := by
  induction node using treeInduction generalizing outer with
  | element name attrs children ih =>
      by_cases placeholder : name.kind = .placeholder
      · have run : startsIn enters bookmark (textRun spell children text) =
            startsIn enters bookmark (.element name attrs children) := by
          rw [startsIn_textRun spells runs, startsIn_of_kind (by rw [placeholder]; decide),
            placeholder]
        rw [← run, resolveIn, if_pos placeholder]
        split
        · exact startsIn_wrapped spells paragraphs _
        · rfl
      · rw [resolveIn, if_neg placeholder, resolveAll_eq_map]
        exact startsIn_congr (startsAmong_map_congr fun child member => ih child member name.kind)
  | text | comment => rfl

theorem startsAmong_children_resolveIn (spells : SpellsWords spell)
    (paragraphs : enters .paragraph = true) (runs : enters .run = enters .placeholder)
    (outer : Kind) {root : Node} (other : root.kind ≠ .placeholder) :
    startsAmong enters bookmark (resolveIn spell text outer root).children =
      startsAmong enters bookmark root.children := by
  cases root with
  | element name attrs children =>
      rw [kind_element] at other
      rw [resolveIn, if_neg other, resolveAll_eq_map]
      exact startsAmong_map_congr fun child _ =>
        startsIn_resolveIn spells paragraphs runs name.kind child
  | text | comment => rfl

private theorem startsAmong_wrapRunsAll_of (spells : SpellsWords spell)
    (paragraphs : enters .paragraph = true) (outer : Kind) {nodes : List Node}
    (each : ∀ node ∈ nodes,
      startsIn enters bookmark (wrapRunsIn spell node) = startsIn enters bookmark node) :
    startsAmong enters bookmark (wrapRunsAll spell outer nodes) =
      startsAmong enters bookmark nodes := by
  rw [wrapRunsAll_eq_map]
  refine startsAmong_map_congr fun node member => ?_
  split
  · rw [startsIn_wrapped spells paragraphs, each node member]
  · exact each node member

private theorem startsIn_wrapRunsIn (spells : SpellsWords spell)
    (paragraphs : enters .paragraph = true) (node : Node) :
    startsIn enters bookmark (wrapRunsIn spell node) = startsIn enters bookmark node := by
  induction node using treeInduction with
  | element name attrs children ih =>
      exact startsIn_congr (startsAmong_wrapRunsAll_of spells paragraphs name.kind ih)
  | text | comment => rfl

theorem startsAmong_children_wrapRunsIn (spells : SpellsWords spell)
    (paragraphs : enters .paragraph = true) (root : Node) :
    startsAmong enters bookmark (wrapRunsIn spell root).children =
      startsAmong enters bookmark root.children := by
  cases root with
  | element name attrs children =>
      exact startsAmong_wrapRunsAll_of spells paragraphs name.kind fun child _ =>
        startsIn_wrapRunsIn spells paragraphs child
  | text | comment => rfl

end Passes

/-! ## Reading back -/

private theorem startsAmong_filter_isElement (nodes : List Node) :
    startsAmong enters bookmark (nodes.filter isElement) = startsAmong enters bookmark nodes := by
  induction nodes with
  | nil => rfl
  | cons node rest ih =>
      cases node with
      | element => exact congrArg (startsIn enters bookmark _ + ·) ih
      | text | comment => exact ih.trans (Nat.zero_add _).symm

private theorem startsAmong_children_reread_of {node : Node}
    (each : ∀ child ∈ node.children,
      startsIn enters bookmark child.reread = startsIn enters bookmark child) :
    startsAmong enters bookmark node.reread.children =
      startsAmong enters bookmark node.children := by
  rw [← startsAmong_filter_isElement, filter_children_reread,
    ← startsAmong_filter_isElement node.children]
  exact startsAmong_map_congr fun child member => each child (List.mem_filter.1 member).1

private theorem startsIn_reread (node : Node) :
    startsIn enters bookmark node.reread = startsIn enters bookmark node := by
  induction node using treeInduction with
  | element name attrs children ih =>
      have below : startsAmong enters bookmark (element name attrs children).reread.children =
          startsAmong enters bookmark children := startsAmong_children_reread_of ih
      rw [reread_element] at below ⊢
      exact startsIn_congr below
  | text | comment => rfl

theorem startsAmong_children_reread (root : Node) :
    startsAmong enters bookmark root.reread.children =
      startsAmong enters bookmark root.children :=
  startsAmong_children_reread_of fun child _ => startsIn_reread child

end Starts

end TemplateFill.Node

namespace TemplateFill.Bookmark

open Node

/-- Behind the replacement no pass of a substitution makes or loses a start marker. -/
theorem Fills.startsAmong_children {root filled : Node} {bookmark text : String} {site : Site}
    {path : Path} {enters : Kind → Bool} (fills : Fills root bookmark text filled site path)
    (notHolder : root.kind ≠ .placeholder) (paragraphs : enters .paragraph = true)
    (runs : enters .run = enters .placeholder) (other : String) :
    startsAmong enters other filled.children =
      startsAmong enters other (root.flatten.replaceAt path site.withPlaceholder).children := by
  have spells := spellsWords_spell root
  have notHolder' : (root.flatten.replaceAt path site.withPlaceholder).regroup.kind ≠
      .placeholder := by
    rw [Site.withPlaceholder, kind_eq_of_label_eq (fills.marks.label_regroup _)]
    exact notHolder
  rw [fills.result, startsAmong_children_wrapRunsIn spells paragraphs,
    startsAmong_children_resolveIn spells paragraphs runs .generic notHolder',
    startsAmong_children_regroup paragraphs]

end TemplateFill.Bookmark
