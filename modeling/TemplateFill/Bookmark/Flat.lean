import TemplateFill.Markup.Node

/-!
# The flat form

In the flat form of a document every paragraph below the root is replaced by its content,
lifted to the level of the paragraph, and a paragraph mark: the paragraph with nothing in
it but its properties.  A bookmark across paragraphs is then one run of siblings.
-/

namespace TemplateFill

namespace Node

/-- Whether a node is a paragraph. -/
def isParagraph (node : Node) : Bool := node.kind == .paragraph

/-- Whether a node is the properties of a paragraph. -/
def isParagraphProps (node : Node) : Bool := node.kind == .paragraphProps

mutual

/-- What stands for a node in the flat form. -/
def flattenNode : Node → List Node
  | .element name attrs children =>
      if name.kind = .paragraph then
        flattenContent children ++ [.element name attrs (children.filter isParagraphProps)]
      else
        [.element name attrs (flattenAll children)]
  | .text content => [.text content]
  | .comment content => [.comment content]

/-- What stands for siblings in the flat form. -/
def flattenAll : List Node → List Node
  | [] => []
  | node :: rest => flattenNode node ++ flattenAll rest

/-- What stands for the content of a paragraph: its children but its properties. -/
def flattenContent : List Node → List Node
  | [] => []
  | node :: rest =>
      if node.isParagraphProps then flattenContent rest
      else flattenNode node ++ flattenContent rest

end

/-- The flat form of a document.  The root stays, even if it is a paragraph. -/
def flatten (root : Node) : Node := root.mapChildren flattenAll

@[simp] theorem flattenAll_append (left right : List Node) :
    flattenAll (left ++ right) = flattenAll left ++ flattenAll right := by
  induction left with
  | nil => simp [flattenAll]
  | cons node rest ih => simp [flattenAll, ih]

/-- Lifting the content of a paragraph leaves its properties out and flattens the rest. -/
theorem flattenContent_eq (nodes : List Node) :
    flattenContent nodes = flattenAll (nodes.filter (!·.isParagraphProps)) := by
  induction nodes with
  | nil => simp [flattenContent, flattenAll]
  | cons node rest ih =>
      by_cases props : node.isParagraphProps <;>
        simp [flattenContent, flattenAll, props, ih]

end Node

end TemplateFill
