import TemplateFill.Bookmark.Marker
import TemplateFill.Bookmark.Flat

/-!
# Placeholders

A placeholder takes the place of the content between two markers.  It keeps the formatting
of the first run it replaces until it is resolved to a run with the new text.
-/

namespace TemplateFill

open TemplateFill.Text

namespace Node

/-- The formatting of the first run among siblings. -/
def firstFormatting? (siblings : List Node) : Option Node :=
  (siblings.find? (·.kind == .run)).bind fun run =>
    run.children.find? (·.kind == .runProps)

/-- The placeholder for a range of siblings. -/
def placeholderFor (range : List Node) : Node :=
  .element (QName.ofTerm Term.placeholder) [] (firstFormatting? range).toList

/-- Whether a node between two markers outlives the replacement: all but runs, paragraph
marks and tables do. -/
def outlivesReplacement (node : Node) : Bool :=
  node.kind != .paragraph && node.kind != .run && node.kind != .table

/-- The siblings around a pair of markers, with a placeholder behind the start and before
what outlives the replacement. -/
def replaceBetween (pair : MarkerPair) (siblings : List Node) : List Node :=
  let range := pair.between siblings
  siblings.take (pair.first + 1) ++ placeholderFor range ::
    range.filter outlivesReplacement ++ siblings.drop pair.last

/-- Replace what is between two markers by a placeholder. -/
def putPlaceholder (root : Node) (pair : MarkerPair) : Node :=
  root.updateAt (·.mapChildren (replaceBetween pair)) pair.parent

/-- Whether the blanks of a text have to be protected: those at either end. -/
def hasEdgeBlank (text : List Char) : Bool :=
  text.head?.any isBlank || text.getLast?.any isBlank

/-- The text element of a run. -/
def runTextElement (spell : Term → QName) (text : String) : Node :=
  .element (spell Term.runText)
    (if hasEdgeBlank text.toList then [⟨spell Term.space, "preserve"⟩] else [])
    (if text = "" then [] else [.text text])

/-- A run of one text with formatting. -/
def textRun (spell : Term → QName) (formatting : List Node) (text : String) : Node :=
  .element (spell Term.run) [] (formatting ++ [runTextElement spell text])

end Node

/-- Whether elements of a kind hold paragraphs, so that no run may be their child. -/
def Kind.holdsParagraphs : Kind → Bool
  | .body => true
  | .tableCell => true
  | .textBoxContent => true
  | _ => false

namespace Node

mutual

/-- Resolve the placeholders in a node below a parent of kind `outer`.  Where the parent
holds paragraphs the run gets one of its own. -/
def resolveIn (spell : Term → QName) (text : String) (outer : Kind) : Node → Node
  | .element name attrs children =>
      if name.kind = .placeholder then
        if outer.holdsParagraphs then
          .element (spell Term.paragraph) [] [textRun spell children text]
        else textRun spell children text
      else .element name attrs (resolveAll spell text name.kind children)
  | .text content => .text content
  | .comment content => .comment content

/-- Resolve the placeholders in siblings below a parent of kind `outer`. -/
def resolveAll (spell : Term → QName) (text : String) (outer : Kind) : List Node → List Node
  | [] => []
  | node :: rest => resolveIn spell text outer node :: resolveAll spell text outer rest

end

/-- Put runs of `text` in the place of all placeholders. -/
def resolvePlaceholders (root : Node) (text : String) : Node :=
  resolveIn root.spell text .generic root

mutual

/-- Give every run that is a child of the body a paragraph of its own. -/
def wrapRunsIn (spell : Term → QName) : Node → Node
  | .element name attrs children =>
      .element name attrs (wrapRunsAll spell name.kind children)
  | .text content => .text content
  | .comment content => .comment content

/-- The same for siblings below a parent of kind `outer`. -/
def wrapRunsAll (spell : Term → QName) (outer : Kind) : List Node → List Node
  | [] => []
  | node :: rest =>
      (if outer = .body ∧ node.kind = .run then
        .element (spell Term.paragraph) [] [wrapRunsIn spell node]
      else wrapRunsIn spell node) :: wrapRunsAll spell outer rest

end

/-- Give every run that is a child of the body a paragraph of its own. -/
def wrapBodyRuns (root : Node) : Node := wrapRunsIn root.spell root

theorem resolveAll_eq_map (spell : Term → QName) (text : String) (outer : Kind)
    (nodes : List Node) :
    resolveAll spell text outer nodes = nodes.map (resolveIn spell text outer) := by
  induction nodes with
  | nil => simp [resolveAll]
  | cons node rest ih => simp [resolveAll, ih]

end Node

end TemplateFill
