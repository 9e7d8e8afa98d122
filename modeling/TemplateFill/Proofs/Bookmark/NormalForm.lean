import TemplateFill.Proofs.Bookmark.Erasure
import TemplateFill.Proofs.Bookmark.RoundTrip

/-!
# The flat form is a normal form

Flattening moves the boundaries of paragraphs and nothing else: what is left without them stays,
and every paragraph is there as its mark, in the order in which the paragraphs end.  What it makes
is flat, and flat documents stay as they are.  Regrouping can change which paragraph a node is in,
but never the flat form.
-/

namespace TemplateFill

/-- A paragraph as its mark in the flat form shows it. -/
structure ParagraphMark where
  name : QName
  attrs : List Attr
  props : List Node

namespace Node

/-- The mark of a node that is a paragraph. -/
def mark? : Node → Option ParagraphMark
  | .element name attrs children =>
      if name.kind = .paragraph then some ⟨name, attrs, children.filter isParagraphProps⟩ else none
  | _ => none

mutual

/-- The nodes below a node in the order of their ends, without paragraph properties and what is
in them. -/
def endings : Node → List Node
  | .element _ _ children => endingsOfAll children
  | _ => []

/-- Siblings and what is below them, in the order of their ends. -/
def endingsOfAll : List Node → List Node
  | [] => []
  | node :: rest =>
      if node.isParagraphProps then endingsOfAll rest
      else endings node ++ node :: endingsOfAll rest

end

/-- Paragraphs below the root hold nothing but properties, wherever they are outside of
properties. -/
def InFlatForm (root : Node) : Prop :=
  ∀ inner ∈ root.outsideProps, inner.isParagraph = true →
    ∀ child ∈ inner.children, child.isParagraphProps = true

/-! ## What is left without paragraphs -/

private theorem eraseAll_content (children : List Node) :
    eraseAll (children.filter (!·.isParagraphProps)) = eraseAll children := by
  induction children with
  | nil => rfl
  | cons child rest ih =>
      cases isProps : child.isParagraphProps with
      | true => simp [isProps, ih, eraseAll, eraseNode_of_props isProps]
      | false => simp [isProps, ih, eraseAll]

private theorem eraseAll_flattenAll_of_each {nodes : List Node}
    (each : ∀ node ∈ nodes, eraseAll (flattenNode node) = eraseNode node) :
    eraseAll (flattenAll nodes) = eraseAll nodes := by
  induction nodes with
  | nil => rfl
  | cons node rest ih =>
      rw [List.forall_mem_cons] at each
      rw [flattenAll, eraseAll_append, each.1, ih each.2, eraseAll]

private theorem eraseAll_flattenNode (node : Node) :
    eraseAll (flattenNode node) = eraseNode node := by
  induction node using treeInduction with
  | element name attrs children ih =>
      by_cases paragraph : name.kind = .paragraph
      · have content : ∀ child ∈ children.filter (!·.isParagraphProps),
            eraseAll (flattenNode child) = eraseNode child :=
          fun child member => ih child (List.mem_filter.1 member).1
        have props : eraseAll (children.filter isParagraphProps) = [] :=
          eraseAll_props fun child member => (List.mem_filter.1 member).2
        rw [flattenNode_paragraph paragraph, eraseAll_append, eraseAll_singleton,
          eraseNode_paragraph paragraph, eraseNode_paragraph paragraph, props, List.append_nil,
          eraseAll_flattenAll_of_each content, eraseAll_content]
      · rw [flattenNode, if_neg paragraph, eraseAll_singleton]
        exact eraseNode_congr (eraseAll_flattenAll_of_each ih)
  | text | comment => rfl

/-- Flattening keeps all but the boundaries of paragraphs. -/
theorem erase_flatten (root : Node) : root.flatten.erase = root.erase := by
  cases root with
  | element name attrs children =>
      rw [flatten_element, erase, erase, mapChildren, mapChildren,
        eraseAll_flattenAll_of_each fun child _ => eraseAll_flattenNode child]
  | text | comment => rfl

/-! ## Marks -/

theorem outsidePropsOfAll_append (left right : List Node) :
    outsidePropsOfAll (left ++ right) = outsidePropsOfAll left ++ outsidePropsOfAll right := by
  induction left with
  | nil => rfl
  | cons node rest ih =>
      rw [List.cons_append, outsidePropsOfAll, outsidePropsOfAll, ih]
      split
      · rfl
      · rw [List.cons_append, List.append_assoc]

theorem outsidePropsOfAll_props {nodes : List Node}
    (allProps : ∀ node ∈ nodes, node.isParagraphProps = true) : outsidePropsOfAll nodes = [] := by
  induction nodes with
  | nil => rfl
  | cons node rest ih =>
      rw [List.forall_mem_cons] at allProps
      rw [outsidePropsOfAll, if_pos allProps.1, ih allProps.2]

theorem endingsOfAll_content (children : List Node) :
    endingsOfAll (children.filter (!·.isParagraphProps)) = endingsOfAll children := by
  induction children with
  | nil => rfl
  | cons child rest ih =>
      cases isProps : child.isParagraphProps <;> simp [isProps, ih, endingsOfAll]

/-- The marks among siblings of the flat form and below them. -/
private def marksOfAll (nodes : List Node) : List ParagraphMark :=
  (outsidePropsOfAll nodes).filterMap mark?

private theorem marksOfAll_append (left right : List Node) :
    marksOfAll (left ++ right) = marksOfAll left ++ marksOfAll right := by
  rw [marksOfAll, outsidePropsOfAll_append, List.filterMap_append]
  rfl

private theorem marksOfAll_flattenAll_of_each {nodes : List Node}
    (each : ∀ node ∈ nodes, marksOfAll (flattenNode node) =
      (endingsOfAll [node]).filterMap mark?) :
    marksOfAll (flattenAll nodes) = (endingsOfAll nodes).filterMap mark? := by
  induction nodes with
  | nil => rfl
  | cons node rest ih =>
      rw [List.forall_mem_cons] at each
      have split : endingsOfAll (node :: rest) = endingsOfAll [node] ++ endingsOfAll rest := by
        rw [endingsOfAll, endingsOfAll, endingsOfAll]
        split
        · rfl
        · rw [List.append_assoc, List.singleton_append]
      rw [flattenAll, marksOfAll_append, each.1, ih each.2, split, List.filterMap_append]

private theorem marksOfAll_flattenNode (node : Node) :
    marksOfAll (flattenNode node) = (endingsOfAll [node]).filterMap mark? := by
  induction node using treeInduction with
  | element name attrs children ih =>
      by_cases paragraph : name.kind = .paragraph
      · have content : ∀ child ∈ children.filter (!·.isParagraphProps),
            marksOfAll (flattenNode child) = (endingsOfAll [child]).filterMap mark? :=
          fun child member => ih child (List.mem_filter.1 member).1
        have noProps : ¬ (element name attrs children).isParagraphProps = true := by
          simp [isParagraphProps, paragraph]
        have below : outsidePropsOfAll (children.filter isParagraphProps) = [] :=
          outsidePropsOfAll_props fun child member => (List.mem_filter.1 member).2
        have last : marksOfAll [.element name attrs (children.filter isParagraphProps)] =
            [⟨name, attrs, children.filter isParagraphProps⟩] := by
          have image : ¬ (element name attrs
              (children.filter isParagraphProps)).isParagraphProps = true := noProps
          rw [marksOfAll, outsidePropsOfAll, if_neg image, outsideProps, below]
          simp [outsidePropsOfAll, mark?, paragraph]
        rw [flattenNode_paragraph paragraph, marksOfAll_append, last,
          marksOfAll_flattenAll_of_each content, endingsOfAll_content, endingsOfAll,
          if_neg noProps, endings, endingsOfAll, List.filterMap_append]
        simp [mark?, paragraph]
      · rw [flattenNode, if_neg paragraph]
        have inner := marksOfAll_flattenAll_of_each ih
        rw [marksOfAll] at inner
        by_cases isProps : (element name attrs children).isParagraphProps = true
        · have image : (element name attrs (flattenAll children)).isParagraphProps = true := isProps
          rw [marksOfAll, outsidePropsOfAll, if_pos image, endingsOfAll, if_pos isProps]
          rfl
        · have image : ¬ (element name attrs (flattenAll children)).isParagraphProps = true :=
            isProps
          rw [marksOfAll, outsidePropsOfAll, if_neg image, endingsOfAll, if_neg isProps, endings,
            outsideProps]
          simp [outsidePropsOfAll, endingsOfAll, mark?, paragraph, inner]
  | text | comment => rfl

/-- The marks of the flat form are the paragraphs of the document in the order of their ends. -/
theorem marks_flatten (root : Node) :
    root.flatten.outsideProps.filterMap mark? = root.endings.filterMap mark? := by
  cases root with
  | element name attrs children =>
      exact marksOfAll_flattenAll_of_each fun child _ => marksOfAll_flattenNode child
  | text | comment => rfl

/-! ## Flat documents -/

theorem FlatSibling.of_mem_outsideProps {strays : Prop} {node inner : Node}
    (flat : FlatSibling strays node) (other : node.isParagraphProps = false)
    (member : inner ∈ node.outsideProps) : FlatSibling strays inner := by
  induction node using treeInduction with
  | element name attrs children ih =>
      rw [outsideProps, mem_outsidePropsOfAll] at member
      rcases member with ⟨child, among, noProps, inside⟩
      have isFlat : FlatSibling strays child := by
        cases flat with
        | mark _ allProps =>
            rw [allProps child among] at noProps
            cases noProps
        | container _ _ each => exact each child among
        | props _ isProps =>
            rw [other] at isProps
            cases isProps
      rcases List.mem_cons.1 inside with rfl | below
      · exact isFlat
      · exact ih child among isFlat noProps below
  | text | comment => cases member

/-- Flattening makes a document flat. -/
theorem inFlatForm_flatten (root : Node) : root.flatten.InFlatForm := by
  intro inner member paragraph
  have isFlat : FlatSibling True inner := by
    cases whole : root.flatten with
    | element name attrs children =>
        rw [whole, outsideProps, mem_outsidePropsOfAll] at member
        rcases member with ⟨child, among, noProps, inside⟩
        have isSibling : child ∈ root.flatten.children := by
          rw [whole]
          exact among
        have flat : FlatSibling True child := flatSibling_of_mem_flatten isSibling
        rcases List.mem_cons.1 inside with rfl | below
        · exact flat
        · exact flat.of_mem_outsideProps noProps below
    | text | comment =>
        rw [whole] at member
        cases member
  obtain ⟨name, attrs, props, rfl, kind⟩ := exists_of_isParagraph paragraph
  exact isFlat.props_of_mark kind

private theorem flattenAll_of_each {nodes : List Node}
    (each : ∀ node ∈ nodes, flattenNode node = [node]) : flattenAll nodes = nodes := by
  induction nodes with
  | nil => rfl
  | cons node rest ih =>
      rw [List.forall_mem_cons] at each
      rw [flattenAll, each.1, ih each.2, List.singleton_append]

/-- What stands for a node in the flat form stands for itself. -/
private theorem flattenNode_of_mem {node : Node} :
    ∀ flat ∈ flattenNode node, flattenNode flat = [flat] := by
  intro flat member
  refine flattenNode_induction ?content ?mark ?container ?leaf member
  case content => exact fun _ _ _ _ inner => inner
  case mark =>
    intro name attrs children paragraph
    have noContent : (children.filter isParagraphProps).filter (!·.isParagraphProps) = [] := by
      simp
    have allProps : (children.filter isParagraphProps).filter isParagraphProps =
        children.filter isParagraphProps := by
      simp
    rw [flattenNode_paragraph paragraph, noContent, allProps]
    rfl
  case container =>
    intro name attrs children other inner
    have each : ∀ flat ∈ flattenAll children, flattenNode flat = [flat] := by
      intro flat among
      rcases mem_flattenAll.1 among with ⟨child, isChild, isFlat⟩
      exact inner child isChild flat isFlat
    rw [flattenNode, if_neg other, flattenAll_of_each each]
  case leaf =>
    intro node noElement
    cases node with
    | element => cases noElement
    | text | comment => rw [flattenNode]

theorem flatten_flatten (root : Node) : root.flatten.flatten = root.flatten := by
  cases root with
  | element name attrs children =>
      have each : ∀ flat ∈ flattenAll children, flattenNode flat = [flat] := by
        intro flat member
        rcases mem_flattenAll.1 member with ⟨child, _, isFlat⟩
        exact flattenNode_of_mem flat isFlat
      rw [flatten_element, flatten_element, flattenAll_of_each each]
  | text | comment => rfl

/-- Flattening keeps what is left without paragraph properties and paragraph boundaries, keeps the
paragraphs with their attributes and properties in the order of their ends, and reaches a form in
which paragraphs are nothing but marks and which flattening does not change.  This holds of every
`Node`, in which nothing is below texts and comments. -/
theorem flatten_normalizes (root : Node) :
    root.flatten.erase = root.erase ∧
      root.flatten.outsideProps.filterMap mark? = root.endings.filterMap mark? ∧
      root.flatten.InFlatForm ∧
      root.flatten.flatten = root.flatten :=
  ⟨erase_flatten root, marks_flatten root, inFlatForm_flatten root, flatten_flatten root⟩

/-! ## Flat documents after regrouping -/

private theorem flatSibling_of_flatForm {node : Node} (other : node.isParagraphProps = false)
    (flat : ∀ inner ∈ node :: node.outsideProps, inner.isParagraph = true →
      ∀ child ∈ inner.children, child.isParagraphProps = true)
    (placed : ∀ inner ∈ node :: node.outsideProps, inner.isParagraph = false →
      ∀ child ∈ inner.children, child.isParagraphProps = false) :
    FlatSibling False node := by
  induction node using treeInduction with
  | element name attrs children ih =>
      by_cases paragraph : name.kind = .paragraph
      · exact .mark paragraph (flat _ List.mem_cons_self (by simpa [isParagraph] using paragraph))
      · have content : ∀ child ∈ children, child.isParagraphProps = false :=
          placed _ List.mem_cons_self (by simpa [isParagraph] using paragraph)
        refine .container paragraph (by simpa [isParagraphProps] using other) ?_
        intro child among
        have below : ∀ inner ∈ child :: child.outsideProps,
            inner ∈ element name attrs children :: (element name attrs children).outsideProps :=
          fun inner inside => List.mem_cons_of_mem _
            (mem_outsidePropsOfAll.2 ⟨child, among, content child among, inside⟩)
        exact ih child among (content child among)
          (fun inner inside => flat inner (below inner inside))
          (fun inner inside => placed inner (below inner inside))
  | text => exact .text
  | comment => exact .comment

/-- The two conditions on a flat document say what its siblings are. -/
theorem flatSibling_of_inFlatForm {root : Node} (flat : root.InFlatForm)
    (placed : root.PropsInParagraphs) : ∀ child ∈ root.children, FlatSibling False child := by
  intro child among
  have other := placed.1 child among
  have below : ∀ inner ∈ child :: child.outsideProps, inner ∈ root.outsideProps := by
    intro inner inside
    cases root with
    | element name attrs children => exact mem_outsidePropsOfAll.2 ⟨child, among, other, inside⟩
    | text | comment => cases among
  exact flatSibling_of_flatForm other (fun inner inside => flat inner (below inner inside))
    (fun inner inside => placed.2 inner (below inner inside))

/-- Regrouping a flat document does not change its flat form.  So a document that is flattened
and regrouped has the flat form that it had, and doing both again changes nothing.  Both documents
are `Node`s, so that nothing is below their texts and comments. -/
theorem flatten_regroup_of_inFlatForm :
    (∀ flat : Node, flat.InFlatForm → flat.PropsInParagraphs → flat.regroup.flatten = flat) ∧
      ∀ root : Node, root.PropsInParagraphs →
        root.flatten.regroup.flatten = root.flatten ∧
          root.flatten.regroup.flatten.regroup = root.flatten.regroup := by
  constructor
  · intro flat isFlat placed
    exact flatten_regroup (flatSibling_of_inFlatForm isFlat placed)
  · intro root placed
    have again : root.flatten.regroup.flatten = root.flatten :=
      flatten_regroup fun _ member => flatSibling_of_propsInParagraphs placed member
    exact ⟨again, by rw [again]⟩

open Bookmark in
/-- A mark in front of a table, an empty paragraph behind it and content without a mark. -/
def strayMarks : Node :=
  wordElement "body" [] [boldRun "one", wordElement "p" [] [wordElement "pPr" [] []],
    wordElement "tbl" [] [wordElement "tc" [] [boldRun "cell"]],
    wordElement "p" [] [wordElement "pPr" [] []], boldRun "two"]

open Bookmark in
/-- A run in front of a paragraph, which becomes part of it. -/
def looseRun : Node :=
  wordElement "body" [] [boldRun "one", wordElement "p" [] [boldRun "two"]]

theorem flatten_regroup_of_strays :
    strayMarks.regroup.flatten = strayMarks ∧
      (looseRun.flatten.regroup.flatten = looseRun.flatten ∧
        looseRun.flatten.regroup.flatten.regroup = looseRun.flatten.regroup) ∧
      looseRun.flatten.regroup ≠ looseRun := by
  have isFlat : strayMarks.InFlatForm :=
    show ∀ inner ∈ strayMarks.outsideProps, inner.isParagraph = true →
      ∀ child ∈ inner.children, child.isParagraphProps = true by decide
  have flatPlaced : strayMarks.PropsInParagraphs :=
    show (∀ child ∈ strayMarks.children, child.isParagraphProps = false) ∧
      ∀ inner ∈ strayMarks.outsideProps, inner.isParagraph = false →
        ∀ child ∈ inner.children, child.isParagraphProps = false by decide
  have rootPlaced : looseRun.PropsInParagraphs :=
    show (∀ child ∈ looseRun.children, child.isParagraphProps = false) ∧
      ∀ inner ∈ looseRun.outsideProps, inner.isParagraph = false →
        ∀ child ∈ inner.children, child.isParagraphProps = false by decide
  have moved : looseRun.flatten.regroup ≠ looseRun := by
    intro same
    have lengths := congrArg (·.children.length) same
    exact absurd lengths (by decide)
  exact ⟨flatten_regroup_of_inFlatForm.1 strayMarks isFlat flatPlaced,
    flatten_regroup_of_inFlatForm.2 looseRun rootPlaced, moved⟩

end Node

end TemplateFill
