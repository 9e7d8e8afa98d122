import TemplateFill.Proofs.Markup.Declared

/-!
# Labels in their scopes

The names at a label are resolved in the scope that its own declarations and those around it make.
A property of labels in their scopes holds of a tree if it holds at the top and, in the scope there,
of all children.
-/

namespace TemplateFill

open Markup

namespace Node

/-- Every label of a tree has a property in the scope that begins with its own declarations. -/
inductive EveryIn (property : Scope → Label → Prop) : Scope → Node → Prop where
  | element {scope : Scope} {name : QName} {attrs : List Attr} {children : List Node}
      (top : property (declarations attrs ++ scope) (.element name attrs))
      (below : ∀ child ∈ children, EveryIn property (declarations attrs ++ scope) child) :
      EveryIn property scope (.element name attrs children)
  | text {scope : Scope} {content : String} (self : property scope (.text content)) :
      EveryIn property scope (.text content)
  | comment {scope : Scope} {content : String} (self : property scope (.comment content)) :
      EveryIn property scope (.comment content)

section EveryIn

variable {property : Scope → Label → Prop} {scope : Scope} {name : QName} {attrs : List Attr}
  {children : List Node} {node other : Node}

theorem everyIn_element :
    EveryIn property scope (.element name attrs children) ↔
      property (declarations attrs ++ scope) (.element name attrs) ∧
        ∀ child ∈ children, EveryIn property (declarations attrs ++ scope) child := by
  constructor
  · rintro ⟨top, below⟩
    exact ⟨top, below⟩
  · rintro ⟨top, below⟩
    exact .element top below

/-- Below an element without declarations the scope is the same. -/
theorem everyIn_element_of_silent (silent : declarations attrs = []) :
    EveryIn property scope (.element name attrs children) ↔
      property scope (.element name attrs) ∧
        ∀ child ∈ children, EveryIn property scope child := by
  rw [everyIn_element, silent, List.nil_append]

/-- A node may have other children that have the property in the same scope. -/
theorem EveryIn.withChildren (every : EveryIn property scope node)
    (same : other.label = node.label)
    (below : ∀ inner, (∀ child ∈ node.children, EveryIn property inner child) →
      ∀ child ∈ other.children, EveryIn property inner child) :
    EveryIn property scope other := by
  cases every with
  | element top each =>
      cases other with
      | element =>
          obtain ⟨rfl, rfl⟩ := Label.element.inj same
          exact .element top (below _ each)
      | text | comment => cases same
  | text self =>
      cases other with
      | text =>
          obtain rfl := Label.text.inj same
          exact .text self
      | element | comment => cases same
  | comment self =>
      cases other with
      | comment =>
          obtain rfl := Label.comment.inj same
          exact .comment self
      | element | text => cases same

theorem EveryIn.mono {weaker : Scope → Label → Prop} (every : EveryIn property scope node)
    (implies : ∀ scope label, property scope label → weaker scope label) :
    EveryIn weaker scope node := by
  induction every with
  | element top _ ih => exact .element (implies _ _ top) ih
  | text self => exact .text (implies _ _ self)
  | comment self => exact .comment (implies _ _ self)

/-- What holds of all labels may imply a property in every scope. -/
theorem everyIn_of_everyLabel {extra : Label → Prop} (labels : EveryLabel extra node)
    (implies : ∀ scope label, extra label → property scope label) :
    EveryIn property scope node := by
  induction node using treeInduction generalizing scope with
  | element name attrs children ih =>
      exact .element (implies _ _ labels.self) fun child member =>
        ih child member (labels.child member)
  | text => exact .text (implies _ _ labels.self)
  | comment => exact .comment (implies _ _ labels.self)

theorem namesIn_of_writable (writable : Writable scope (.element name attrs children)) :
    NamesIn (declarations attrs ++ scope) (.element name attrs) := by
  cases writable.inScope with
  | element nameIn attrsIn => exact ⟨by rintro _ ⟨⟩; exact nameIn, attrsIn⟩

/-- What can be written has its names in their scopes. -/
theorem everyIn_of_writable {extra : Label → Prop} (writable : Writable scope node)
    (labels : EveryLabel extra node)
    (implies : ∀ scope label, label.Writable → label.DistinctAttrs → NamesIn scope label →
      extra label → property scope label) : EveryIn property scope node := by
  induction node using treeInduction generalizing scope with
  | element name attrs children ih =>
      refine .element (implies _ _ writable.labels.self writable.distinct.self
        (namesIn_of_writable writable) labels.self) ?_
      exact fun child member => ih child member (writable.child member) (labels.child member)
  | text content =>
      exact .text (implies _ _ writable.labels.self writable.distinct.self
        (namesIn_text content) labels.self)
  | comment content =>
      exact .comment (implies _ _ writable.labels.self writable.distinct.self
        (namesIn_comment content) labels.self)

end EveryIn

end Node

end TemplateFill
