import TemplateFill.Proofs.Markup.InScope
import TemplateFill.Proofs.Markup.LegalText
import TemplateFill.Proofs.Markup.Spelling

/-!
# Names that are resolved again

A document is written without its namespaces.  Reading gives its names the namespaces of their
scopes again, whatever they have been before, so a document whose new names miss their declarations
can be read back too.
-/

namespace TemplateFill

open Markup

/-! ## Respelled documents -/

/-- An element name in the namespace that a scope gives its qualifier. -/
def QName.elementIn (scope : Scope) (name : QName) : QName :=
  { name with ns := namespaceIn scope (name.qualifier.getD "") }

/-- An attribute name in the namespace that a scope gives its qualifier. -/
def QName.attrIn (scope : Scope) (name : QName) : QName :=
  { name with
    ns :=
      match name.qualifier with
      | none => if name.localName = "xmlns" then some Namespace.declarations else none
      | some qualifier =>
          if qualifier = "xmlns" then some Namespace.declarations
          else namespaceIn scope qualifier }

def Attr.respelled (scope : Scope) (attr : Attr) : Attr := ⟨attr.name.attrIn scope, attr.value⟩

/-- A label with its names in the namespaces of a scope. -/
def Label.respelled (scope : Scope) : Label → Label
  | .element name attrs => .element (name.elementIn scope) (attrs.map (·.respelled scope))
  | label => label

namespace Node

mutual

/-- A tree with all its names in the namespaces that their scopes give them. -/
def respelled (scope : Scope) : Node → Node
  | .element name attrs children =>
      .element (name.elementIn (declarations attrs ++ scope))
        (attrs.map (·.respelled (declarations attrs ++ scope)))
        (respelledAll (declarations attrs ++ scope) children)
  | node => node

/-- The same for siblings. -/
def respelledAll (scope : Scope) : List Node → List Node
  | [] => []
  | node :: rest => respelled scope node :: respelledAll scope rest

end

end Node

section Respelled

variable {scope : Scope} {name : QName} {attrs : List Attr} {label : Label}

theorem QName.legal_elementIn (legal : name.Legal) : (name.elementIn scope).Legal :=
  ⟨legal.localName, legal.qualifier⟩

theorem QName.legal_attrIn (legal : name.Legal) : (name.attrIn scope).Legal :=
  ⟨legal.localName, legal.qualifier⟩

theorem declarations_map_respelled (attrs : List Attr) :
    declarations (attrs.map (·.respelled scope)) = declarations attrs := by
  rw [declarations, List.filterMap_map]
  rfl

/-- Names that are in the namespaces of a scope stay. -/
theorem Label.respelled_of_namesIn (names : NamesIn scope label) :
    label.respelled scope = label := by
  cases label with
  | element name attrs =>
      have nameIn : name.elementIn scope = name :=
        QName.eq_of_parts (names.element name rfl).symm rfl rfl
      have attrsIn : attrs.map (·.respelled scope) = attrs := by
        refine (List.map_congr_left fun attr member => ?_).trans (List.map_id attrs)
        have same : attr.name.attrIn scope = attr.name :=
          QName.eq_of_parts (names.attrs attr member).symm rfl rfl
        rw [Attr.respelled, same, id_eq]
      rw [respelled, nameIn, attrsIn]
  | text | comment => rfl

theorem Label.writable_respelled (writable : label.Writable) :
    (label.respelled scope).Writable := by
  cases label with
  | element name attrs =>
      refine ⟨name.legal_elementIn writable.1, List.forall_mem_map.2 fun attr member => ?_⟩
      exact attr.name.legal_attrIn (writable.2 attr member)
  | text | comment => exact writable

namespace Node

theorem respelledAll_eq_map (nodes : List Node) :
    respelledAll scope nodes = nodes.map (respelled scope) := by
  induction nodes with
  | nil => rfl
  | cons node rest ih => rw [respelledAll, ih, List.map_cons]

theorem respelled_element (name : QName) (attrs : List Attr) (children : List Node) :
    respelled scope (.element name attrs children) =
      .element (name.elementIn (declarations attrs ++ scope))
        (attrs.map (·.respelled (declarations attrs ++ scope)))
        (children.map (respelled (declarations attrs ++ scope))) := by
  rw [respelled, respelledAll_eq_map]

private theorem write_element_congr {name other : QName} {attrs others : List Attr}
    {children rest : List Node} (tags : writeTag name attrs = writeTag other others)
    (names : name.written = other.written) (below : writeAll children = writeAll rest)
    (both : children = [] ↔ rest = []) :
    (element name attrs children).write = (element other others rest).write := by
  cases children with
  | nil =>
      rw [both.1 rfl, write, write, tags]
  | cons child children =>
      cases rest with
      | nil => cases both.2 rfl
      | cons first rest =>
          rw [writeAll, writeAll] at below
          rw [write, write, tags, names, below]

/-- Namespaces are not written. -/
theorem write_respelled (node : Node) : (node.respelled scope).write = node.write := by
  induction node using treeInduction generalizing scope with
  | element name attrs children ih =>
      have tags : ∀ inner : Scope,
          writeTag (name.elementIn inner) (attrs.map (·.respelled inner)) =
            writeTag name attrs := by
        intro inner
        rw [writeTag, writeTag, List.flatMap_map]
        rfl
      have below : ∀ inner : Scope, writeAll (children.map (respelled inner)) =
          writeAll children := by
        intro inner
        induction children with
        | nil => rfl
        | cons child rest ihRest =>
            rw [List.forall_mem_cons] at ih
            rw [List.map_cons, writeAll, writeAll, ih.1, ihRest ih.2]
      rw [respelled_element]
      exact write_element_congr (tags _) rfl (below _) List.map_eq_nil_iff
  | text | comment => rfl

/-- A tree with its names in their scopes can be written and read back. -/
theorem writable_respelled {node : Node}
    (every : EveryIn (fun scope label => (label.respelled scope).Writable ∧
      (label.respelled scope).DistinctAttrs) scope node) :
    Writable scope (node.respelled scope) := by
  induction node using treeInduction generalizing scope with
  | element name attrs children ih =>
      rcases everyIn_element.1 every with ⟨⟨writable, distinct⟩, below⟩
      rw [respelled_element]
      have each : ∀ child ∈ children.map (respelled (declarations attrs ++ scope)),
          Writable (declarations (attrs.map (·.respelled (declarations attrs ++ scope))) ++ scope)
            child := by
        rw [declarations_map_respelled]
        exact List.forall_mem_map.2 fun child member => ih child member (below child member)
      constructor
      · exact everyLabel_element.2 ⟨writable, fun child member => (each child member).labels⟩
      · exact everyLabel_element.2 ⟨distinct, fun child member => (each child member).distinct⟩
      · refine .element ?_ ?_ fun child member => (each child member).inScope
        · rw [declarations_map_respelled]
          rfl
        · rw [declarations_map_respelled]
          exact List.forall_mem_map.2 fun attr _ => rfl
  | text =>
      cases every with
      | text self => exact ⟨everyLabel_text.2 self.1, everyLabel_text.2 self.2, .text⟩
  | comment =>
      cases every with
      | comment self => exact ⟨everyLabel_comment.2 self.1, everyLabel_comment.2 self.2, .comment⟩

/-- The children of an element are read back with their names in their scopes. -/
theorem readText_toDocument_respelled {children : List Node}
    (writable : Writable []
      (.element name attrs (children.map (respelled (declarations attrs ++ []))))) :
    readText (element name attrs children).toDocument =
      .ok (element name attrs (children.map (respelled (declarations attrs ++ [])))).reread := by
  have same : (element name attrs children).respelled [] =
      element name attrs (children.map (respelled (declarations attrs ++ []))) := by
    obtain ⟨sameName, sameAttrs⟩ := Label.element.inj
      (Label.respelled_of_namesIn (namesIn_of_writable writable))
    rw [respelled_element, sameName, sameAttrs]
  rw [← writable.readText_toDocument rfl, toDocument, toDocument, ← same, write_respelled]

end Node

/-! ## New names -/

/-- A word is spelled with a legal name. -/
theorem Term.legal_spelled (attrsLegal : ∀ attr ∈ attrs, attr.name.Legal) {term : Term}
    (localName : isSimpleName term.localName.toList = true)
    (qualifier : term.qualifier ≠ "" → isSimpleName term.qualifier.toList = true) :
    (term.spelled attrs).Legal := by
  refine ⟨localName, fun chosen isChosen => ?_⟩
  rcases Option.filter_eq_some_iff.1 isChosen with ⟨among, filled⟩
  rw [declaredQualifier?] at among
  split at among
  · cases among
    decide
  · cases found : attrs.find? fun attr =>
        attr.name.ns == some Namespace.declarations && attr.value == term.ns with
    | none =>
        rw [found] at among
        cases among
        exact qualifier (by simpa using filled)
    | some attr =>
        rw [found, Option.map_some, Option.getD_some, Option.map_eq_some_iff] at among
        rcases among with ⟨_, _, rfl⟩
        exact (attrsLegal attr (List.mem_of_find?_eq_some found)).localName

end Respelled

end TemplateFill
