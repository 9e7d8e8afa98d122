import TemplateFill.Markup.Vocabulary

/-!
# Document trees

A document is a tree of elements, texts and comments, in which only elements have children.
Besides its parts a tree has two flat views: its proper descendants in document order, and its
outline, the preorder list of labels with their depths, which determines the tree.
-/

namespace TemplateFill

/-- A node of a document with everything below it.  Only an element has anything below it: unlike in
a `NodeStore`, where every node has child links, nothing can be below a text or a comment.  What is
proved of nodes therefore speaks of stores in which that is so as well. -/
inductive Node where
  | element (name : QName) (attrs : List Attr) (children : List Node)
  | text (content : String)
  | comment (content : String)
  deriving Repr, Inhabited

/-- A node without what is below it. -/
inductive Label where
  | element (name : QName) (attrs : List Attr)
  | text (content : String)
  | comment (content : String)
  deriving DecidableEq, Repr, Inhabited

namespace Label

/-- The name of an element. -/
def name? : Label → Option QName
  | .element name _ => some name
  | _ => none

/-- The attributes of an element; other labels have none. -/
def attrs : Label → List Attr
  | .element _ attrs => attrs
  | _ => []

/-- The content of a text. -/
def text? : Label → Option String
  | .text content => some content
  | _ => none

/-- The kind of a node with this label. -/
def kind : Label → Kind
  | .element name _ => name.kind
  | _ => .charData

end Label

/-- The value of the first attribute that means `term`. -/
def attrValue? (attrs : List Attr) (term : Term) : Option String :=
  (attrs.find? fun attr => attr.name.denotes term).map (·.value)

/-- The value of the first attribute without namespace that is called `localName`. -/
def plainAttrValue? (attrs : List Attr) (localName : String) : Option String :=
  (attrs.find? fun attr => attr.name.ns.isNone && attr.name.localName == localName).map
    (·.value)

namespace Node

/-- The node without what is below it. -/
def label : Node → Label
  | .element name attrs _ => .element name attrs
  | .text content => .text content
  | .comment content => .comment content

/-- The name of an element. -/
def name? (node : Node) : Option QName := node.label.name?

/-- The attributes of an element; other nodes have none. -/
def attrs (node : Node) : List Attr := node.label.attrs

/-- The content of a text. -/
def text? (node : Node) : Option String := node.label.text?

/-- The kind of a node. -/
def kind (node : Node) : Kind := node.label.kind

/-- The children of an element; other nodes have none. -/
def children : Node → List Node
  | .element _ _ children => children
  | _ => []

/-- Whether a node is an element. -/
def isElement (node : Node) : Bool := node.name?.isSome

/-- The value of the first attribute that means `term`. -/
def attr? (node : Node) (term : Term) : Option String := attrValue? node.attrs term

/-- The value of the first attribute without namespace that is called `localName`. -/
def plainAttr? (node : Node) (localName : String) : Option String :=
  plainAttrValue? node.attrs localName

/-- Whether a node is an element whose name means `term`. -/
def denotes (node : Node) (term : Term) : Bool :=
  node.name?.any (·.denotes term)

/-- The same node with its children changed; texts and comments stay as they are. -/
def mapChildren (change : List Node → List Node) : Node → Node
  | .element name attrs children => .element name attrs (change children)
  | node => node

mutual

/-- The nodes below a node, in document order. -/
def descendants : Node → List Node
  | .element _ _ children => descendantsOfAll children
  | _ => []

/-- Siblings and the nodes below them, in document order. -/
def descendantsOfAll : List Node → List Node
  | [] => []
  | node :: rest => node :: (descendants node ++ descendantsOfAll rest)

end

/-- The node and the nodes below it, in document order. -/
def selfAndDescendants (node : Node) : List Node := node :: node.descendants

mutual

/-- The labels of a node at `depth` and of the nodes below it, in document order. -/
def outlineFrom (depth : Nat) : Node → List (Nat × Label)
  | .element name attrs children =>
      (depth, .element name attrs) :: outlineOfAll (depth + 1) children
  | .text content => [(depth, .text content)]
  | .comment content => [(depth, .comment content)]

/-- The labels of siblings at `depth` and of the nodes below them. -/
def outlineOfAll (depth : Nat) : List Node → List (Nat × Label)
  | [] => []
  | node :: rest => outlineFrom depth node ++ outlineOfAll depth rest

end

/-- The labels of a tree with their depths, in document order. -/
def outline (node : Node) : List (Nat × Label) := outlineFrom 0 node

/-- The texts below a node, one after the other; a text is its own content. -/
def textContent (node : Node) : String :=
  match node.text? with
  | some content => content
  | none => String.join (node.descendants.filterMap text?)

/-- Whether some node of the tree is tracked change markup. -/
def hasRevisions (node : Node) : Bool :=
  node.selfAndDescendants.any fun inner => inner.name?.any (·.isRevisionMark)

/-- How a vocabulary word is written in the document below this root. -/
def spell (root : Node) (term : Term) : QName := term.spelled root.attrs

/-- The root with a declaration of `ns`, added unless there is one. -/
def declare (root : Node) (ns qualifier : String) : Node :=
  match root with
  | .element name attrs children => .element name (declareNamespace attrs ns qualifier) children
  | _ => root

@[simp] theorem descendantsOfAll_append (left right : List Node) :
    descendantsOfAll (left ++ right) = descendantsOfAll left ++ descendantsOfAll right := by
  induction left with
  | nil => simp [descendantsOfAll]
  | cons node rest ih => simp [descendantsOfAll, ih]

@[simp] theorem outlineOfAll_append (depth : Nat) (left right : List Node) :
    outlineOfAll depth (left ++ right) = outlineOfAll depth left ++ outlineOfAll depth right := by
  induction left with
  | nil => simp [outlineOfAll]
  | cons node rest ih => simp [outlineOfAll, ih]

end Node

end TemplateFill
