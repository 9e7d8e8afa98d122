import TemplateFill.Bookmark.Position
import TemplateFill.Proofs.Markup.InScope
import TemplateFill.Proofs.Markup.LegalText

/-!
# Lexical scoping

Which namespace a name of a document is in can be told from the document alone: by the nearest
declaration on the element itself and on the elements around it.  What stands beside these elements
or inside them does not matter, nor whether an element is written as one tag or as two.
-/

namespace TemplateFill

open Markup Text

/-! ## The rule -/

/-- How the attribute is written that declares a qualifier, or the default namespace for the empty
one. -/
def declarationKey (qualifier : String) : String :=
  if qualifier = "" then "xmlns" else "xmlns:" ++ qualifier

namespace Node

/-- The namespace that an element declares for a qualifier. -/
def declared? (node : Node) (qualifier : String) : Option String :=
  (node.attrs.find? fun attr => attr.name.written == declarationKey qualifier).map (·.value)

/-- The namespace that nested elements, the innermost first, give a qualifier: the nearest
declaration counts, and an empty namespace is none. -/
def nearestNamespace (elements : List Node) (qualifier : String) : Option String :=
  if qualifier = "xml" then some Namespace.xml
  else (elements.findSome? (·.declared? qualifier)).filter (· ≠ "")

/-- The namespace of an attribute inside nested elements. -/
def nearestAttrNamespace (elements : List Node) (name : QName) : Option String :=
  match name.qualifier with
  | none => if name.localName = "xmlns" then some Namespace.declarations else none
  | some qualifier =>
      if qualifier = "xmlns" then some Namespace.declarations
      else nearestNamespace elements qualifier

/-- A node at a position and the elements around it, the innermost first. -/
def lineage (root : Node) (path : Path) (node : Node) : List Node :=
  node :: (root.enclosing path).reverse

/-- The names of a node are in the namespaces that nested elements give them. -/
structure NamedBy (elements : List Node) (node : Node) : Prop where
  element : ∀ name ∈ node.name?, name.ns = nearestNamespace elements (name.qualifier.getD "")
  attrs : ∀ attr ∈ node.attrs, attr.name.ns = nearestAttrNamespace elements attr.name

/-- The tag that opens an element, as markup shows it. -/
def tag? (node : Node) : Option Tag :=
  node.name?.map fun name => ⟨name.written.toList, node.attrs.map Attr.raw⟩

end Node

/-! ## Declarations of nested elements -/

section Declared

variable {qualifier : String} {attr : Attr} {attrs : List Attr}

/-- A qualifier that a name can have, or the empty one. -/
def IsQualifier (qualifier : String) : Prop :=
  qualifier = "" ∨ isSimpleName qualifier.toList = true

/-- An attribute that is written as the declaration of a qualifier declares it. -/
private theorem declares?_eq_some_iff (legal : attr.name.Legal) (known : IsQualifier qualifier) :
    attr.declares? = some (qualifier, attr.value) ↔
      attr.name.written = declarationKey qualifier := by
  constructor
  · intro declares
    rw [QName.written, declarationKey]
    rcases (name_of_declares declares).2 with ⟨bare, default, empty⟩ | ⟨prefixed, same⟩
    · rw [bare, default, if_pos empty]
    · have solid : qualifier ≠ "" := by
        rintro rfl
        have simple := legal.localName
        rw [same] at simple
        cases simple
      rw [prefixed, same, if_neg solid]
      rfl
  · intro written
    rw [Attr.declares?]
    rw [declarationKey] at written
    split at written
    · rename_i empty
      have plain : (QName.plain "xmlns").Legal := by
        refine ⟨by decide, ?_⟩
        rintro _ ⟨⟩
      rcases written_inj legal plain (congrArg String.toList written) with ⟨bare, default⟩
      rw [bare, default, empty]
      rfl
    · rename_i solid
      have simple := known.resolve_left solid
      have prefixed : (⟨none, some "xmlns", qualifier⟩ : QName).Legal := by
        refine ⟨simple, ?_⟩
        rintro _ ⟨⟩
        decide
      rcases written_inj legal prefixed (congrArg String.toList written) with ⟨front, named⟩
      rw [front, named]
      rfl

private theorem lookup_declarations_eq (legal : ∀ attr ∈ attrs, attr.name.Legal)
    (known : IsQualifier qualifier) :
    (declarations attrs).lookup qualifier =
      (attrs.find? fun attr => attr.name.written == declarationKey qualifier).map (·.value) := by
  induction attrs with
  | nil => rfl
  | cons attr attrs ih =>
      rcases List.forall_mem_cons.1 legal with ⟨one, others⟩
      have iff := declares?_eq_some_iff one known
      rw [declarations, List.filterMap_cons, ← declarations]
      by_cases written : attr.name.written = declarationKey qualifier
      · rw [iff.2 written, List.find?_cons_of_pos (by simpa using written)]
        simp
      · rw [List.find?_cons_of_neg (by simpa using written), ← ih others]
        cases declares : attr.declares? with
        | none => rfl
        | some declared =>
            have apart : qualifier ≠ declared.1 := by
              rintro rfl
              rw [(name_of_declares declares).1] at iff
              exact written (iff.1 declares)
            simp only
            rw [List.lookup_cons, beq_false_of_ne apart]

/-- The declarations of nested elements, the innermost first. -/
def scopeOf (elements : List Node) : Scope :=
  elements.flatMap fun element => declarations element.attrs

theorem scopeOf_concat (elements : List Node) (outer : Node) :
    scopeOf (elements ++ [outer]) = scopeOf elements ++ declarations outer.attrs := by
  rw [scopeOf, List.flatMap_append, List.flatMap_singleton, ← scopeOf]

private theorem namespaceIn_scopeOf {elements : List Node}
    (legal : ∀ element ∈ elements, ∀ attr ∈ element.attrs, attr.name.Legal)
    (known : IsQualifier qualifier) :
    namespaceIn (scopeOf elements) qualifier = Node.nearestNamespace elements qualifier := by
  have lookups : (scopeOf elements).lookup qualifier =
      elements.findSome? (·.declared? qualifier) := by
    induction elements with
    | nil => rfl
    | cons element elements ih =>
        rcases List.forall_mem_cons.1 legal with ⟨one, others⟩
        rw [scopeOf, List.flatMap_cons, List.lookup_append, lookup_declarations_eq one known,
          ← scopeOf, ih others, List.findSome?_cons, ← Node.declared?]
        cases element.declared? qualifier <;> rfl
  rw [namespaceIn, Node.nearestNamespace, lookups]

end Declared

/-! ## Names at positions -/

theorem QName.Legal.isQualifier {name : QName} (legal : name.Legal) :
    IsQualifier (name.qualifier.getD "") := by
  cases qualified : name.qualifier with
  | none => exact .inl rfl
  | some qualifier => exact .inr (legal.qualifier qualifier qualified)

namespace Node

section Writable

variable {root node : Node} {path : Path} {scope : Scope}

/-- The elements around a position make up its scope. -/
theorem writable_at (writable : Writable scope root) (found : root.at? path = some node) :
    Writable (scopeOf (root.enclosing path).reverse ++ scope) node ∧
      ∀ outer ∈ root.enclosing path, ∀ attr ∈ outer.attrs, attr.name.Legal := by
  induction path generalizing root scope with
  | nil =>
      cases found
      exact ⟨writable, List.forall_mem_nil _⟩
  | cons index rest ih =>
      rw [at?, Option.bind_eq_some_iff] at found
      rcases found with ⟨child, isChild, found⟩
      cases root with
      | text | comment => cases isChild
      | element name attrs children =>
          rcases ih (writable.child (List.mem_of_getElem? isChild)) found with ⟨inner, above⟩
          have enclosed : (element name attrs children).enclosing (index :: rest) =
              element name attrs children :: child.enclosing rest := by
            rw [enclosing, isChild]
            rfl
          rw [enclosed]
          refine ⟨?_, List.forall_mem_cons.2 ⟨writable.labels.self.2, above⟩⟩
          rw [List.reverse_cons, scopeOf_concat, List.append_assoc]
          exact inner

/-- In a document that can be written all names are in the namespaces of their lineage. -/
theorem namedBy_of_writable (writable : Writable [] root) (found : root.at? path = some node) :
    NamedBy (root.lineage path node) node := by
  rcases writable_at writable found with ⟨inner, above⟩
  cases node with
  | text | comment => exact ⟨nofun, List.forall_mem_nil _⟩
  | element name attrs children =>
      rcases inner.labels.self with ⟨nameLegal, attrsLegal⟩
      have names := namesIn_of_writable inner
      have legal : ∀ outer ∈ root.lineage path (element name attrs children),
          ∀ attr ∈ outer.attrs, attr.name.Legal :=
        List.forall_mem_cons.2
          ⟨attrsLegal, fun outer member => above outer (List.mem_reverse.1 member)⟩
      have whole : declarations attrs ++ (scopeOf (root.enclosing path).reverse ++ []) =
          scopeOf (root.lineage path (element name attrs children)) := by
        rw [List.append_nil]
        rfl
      rw [whole] at names
      constructor
      · rintro _ ⟨⟩
        rw [names.element name rfl, namespaceIn_scopeOf legal nameLegal.isQualifier]
      · intro attr member
        rw [names.attrs attr member, nearestAttrNamespace]
        cases qualified : attr.name.qualifier with
        | none => rfl
        | some qualifier =>
            have known := (attrsLegal attr member).isQualifier
            rw [qualified, Option.getD_some] at known
            simp only
            rw [namespaceIn_scopeOf legal known]

end Writable

/-! ## What names depend on -/

section Congr

variable {left right : List Node} {node other : Node}

private theorem declared?_eq_bind (node : Node) (qualifier : String) :
    node.declared? qualifier = node.tag?.bind fun tag =>
      (tag.attrs.find? (·.key == (declarationKey qualifier).toList)).map
        fun attr => String.ofList attr.value := by
  cases node with
  | text | comment => rfl
  | element name attrs children =>
      have keys : (fun attr : Attr => attr.name.written == declarationKey qualifier) =
          (·.key == (declarationKey qualifier).toList) ∘ Attr.raw := by
        funext attr
        rw [Bool.eq_iff_iff, beq_iff_eq, Function.comp_apply, beq_iff_eq, Attr.raw,
          String.toList_inj]
      have values : (·.value) = (fun attr => String.ofList attr.value) ∘ Attr.raw :=
        funext fun attr => String.ofList_toList.symm
      have isTag : (element name attrs children).tag? =
          some ⟨name.written.toList, attrs.map Attr.raw⟩ := rfl
      rw [declared?, isTag, Option.bind_some, List.find?_map, Option.map_map, keys, values,
        attrs_element]

/-- What nested elements give a qualifier is told by their tags. -/
theorem nearestNamespace_congr (same : left.map tag? = right.map tag?) (qualifier : String) :
    nearestNamespace left qualifier = nearestNamespace right qualifier := by
  have told : ∀ elements : List Node, elements.findSome? (·.declared? qualifier) =
      (elements.map tag?).findSome? fun tag => tag.bind fun tag =>
        (tag.attrs.find? (·.key == (declarationKey qualifier).toList)).map
          fun attr => String.ofList attr.value := by
    intro elements
    rw [List.findSome?_map]
    exact congrArg (List.findSome? · elements) (funext (declared?_eq_bind · qualifier))
  rw [nearestNamespace, nearestNamespace, told, told, same]

private theorem nearestAttrNamespace_congr (same : left.map tag? = right.map tag?)
    {name name' : QName} (qualifier : name.qualifier = name'.qualifier)
    (localName : name.localName = name'.localName) :
    nearestAttrNamespace left name = nearestAttrNamespace right name' := by
  rw [nearestAttrNamespace, nearestAttrNamespace, qualifier, localName,
    funext (nearestNamespace_congr same)]

private theorem attrs_eq {attrs attrs' : List Attr} (same : left.map tag? = right.map tag?)
    (raws : attrs.map Attr.raw = attrs'.map Attr.raw)
    (named : ∀ attr ∈ attrs, attr.name.Legal ∧ attr.name.ns = nearestAttrNamespace left attr.name)
    (named' : ∀ attr ∈ attrs', attr.name.Legal ∧
      attr.name.ns = nearestAttrNamespace right attr.name) : attrs = attrs' := by
  induction attrs generalizing attrs' with
  | nil =>
      rw [List.map_nil, eq_comm, List.map_eq_nil_iff] at raws
      exact raws.symm
  | cons attr attrs ih =>
      cases attrs' with
      | nil => cases raws
      | cons attr' attrs' =>
          rcases List.cons.inj raws with ⟨raw, raws⟩
          rcases List.forall_mem_cons.1 named with ⟨⟨legal, ns⟩, others⟩
          rcases List.forall_mem_cons.1 named' with ⟨⟨legal', ns'⟩, others'⟩
          rcases RawAttr.mk.inj raw with ⟨written, value⟩
          rcases written_inj legal legal' written with ⟨qualifier, localName⟩
          have names : attr.name = attr'.name := by
            refine QName.eq_of_parts ?_ qualifier localName
            rw [ns, ns', nearestAttrNamespace_congr same qualifier localName]
          have attrsAre : attr = attr' := by
            cases attr
            cases attr'
            exact Attr.mk.injEq .. ▸ ⟨names, String.toList_inj.1 value⟩
          rw [attrsAre, ih raws others others']

/-- Nodes with the same tags around them have the same names. -/
theorem names_eq_of_lineage {root root' : Node} {path path' : Path} (writable : Writable [] root)
    (writable' : Writable [] root') (found : root.at? path = some node)
    (found' : root'.at? path' = some other)
    (same : (root.lineage path node).map tag? = (root'.lineage path' other).map tag?) :
    node.name? = other.name? ∧ node.attrs = other.attrs := by
  have named := namedBy_of_writable writable found
  have named' := namedBy_of_writable writable' found'
  have labels := (writable_at writable found).1.labels.self
  have labels' := (writable_at writable' found').1.labels.self
  have tags : node.tag? = other.tag? := (List.cons.inj same).1
  cases node with
  | text | comment =>
      cases other with
      | text | comment => exact ⟨rfl, rfl⟩
      | element => cases tags
  | element name attrs children =>
      cases other with
      | text | comment => cases tags
      | element name' attrs' children' =>
          rcases Tag.mk.inj (Option.some.inj tags) with ⟨written, raws⟩
          rcases written_inj labels.1 labels'.1 written with ⟨qualifier, localName⟩
          constructor
          · refine congrArg some (QName.eq_of_parts ?_ qualifier localName)
            rw [named.element name rfl, named'.element name' rfl, qualifier,
              nearestNamespace_congr same]
          · exact attrs_eq same raws
              (fun attr member => ⟨labels.2 attr member, named.attrs attr member⟩)
              (fun attr member => ⟨labels'.2 attr member, named'.attrs attr member⟩)

end Congr

end Node

/-! ## Documents that are read -/

namespace Markup

theorem Tag.name_of_read {content : List Char} {tag : Tag} (read : Tag.read content = .ok tag) :
    tag.name = content.takeWhile (!isMarkupBlank ·) := by
  rw [Tag.read] at read
  simp only at read
  cases attrs : readAttrs [] [] (byteLength (content.takeWhile (!isMarkupBlank ·)))
      (content.dropWhile (!isMarkupBlank ·)) with
  | error fault =>
      rw [attrs] at read
      cases read
  | ok attrs' =>
      rw [attrs] at read
      cases read
      rfl

/-- An element that is written as one tag is read as if it were written as two. -/
theorem ReadState.take_emptyTag (state : ReadState) (content : List Char) :
    state.take (.emptyTag content) =
      (state.take (.startTag content)).bind
        (·.take (.endTag (content.takeWhile (!isMarkupBlank ·)))) := by
  rw [take, take]
  cases opened : state.openFrame content with
  | error fault => rfl
  | ok frame =>
      have written : content.takeWhile (!isMarkupBlank ·) = frame.written := by
        rw [openFrame] at opened
        split at opened
        · cases opened
        · rename_i tag read
          split at opened
          · cases opened
          · cases opened
            exact (Tag.name_of_read read).symm
      rw [Except.map, Except.map, Except.bind, take, close]
      simp only
      rw [if_pos written]

/-- In a document that is read from a text with legal names, every name is in the namespace that
the elements around it give it.  These elements as they are written decide it alone, in whatever
document they stand, and one tag for an element does the same as two. -/
theorem namedBy_lineage {text : List Char} {root : Node} (legal : LegalText text)
    (read : readText text = .ok root) :
    (∀ path node, root.at? path = some node → Node.NamedBy (root.lineage path node) node) ∧
      (∀ text' root', LegalText text' → readText text' = .ok root' →
        ∀ path node path' node', root.at? path = some node → root'.at? path' = some node' →
          (root.lineage path node).map Node.tag? = (root'.lineage path' node').map Node.tag? →
          node.name? = node'.name? ∧ node.attrs = node'.attrs) ∧
      ∀ state content, ReadState.take state (.emptyTag content) =
        (state.take (.startTag content)).bind
          (·.take (.endTag (content.takeWhile (!isMarkupBlank ·)))) := by
  have writable := (writable_of_readText legal read).1
  refine ⟨?_, ?_, ReadState.take_emptyTag⟩
  · intro path node found
    exact Node.namedBy_of_writable writable found
  · intro text' root' legal' read' path node path' node' found found' same
    exact Node.names_eq_of_lineage writable (writable_of_readText legal' read').1 found found' same

/-- A text with a qualifier that is declared again beside and below, and with a default namespace
that is taken back. -/
def shadowingText : List Char :=
  ("<a:x xmlns:a='urn:1' xmlns='urn:d'><a:y xmlns:a='urn:2' a:k='' k=''/>" ++
    "<a:z><b xmlns=''/></a:z><c xml:space='preserve'/></a:x>").toList

/-- The document of the sample. -/
def shadowing : Node :=
  .element ⟨some "urn:1", some "a", "x"⟩
    [⟨⟨some Namespace.declarations, some "xmlns", "a"⟩, "urn:1"⟩,
      ⟨⟨some Namespace.declarations, none, "xmlns"⟩, "urn:d"⟩]
    [.element ⟨some "urn:2", some "a", "y"⟩
        [⟨⟨some Namespace.declarations, some "xmlns", "a"⟩, "urn:2"⟩,
          ⟨⟨some "urn:2", some "a", "k"⟩, ""⟩, ⟨.plain "k", ""⟩] [],
      .element ⟨some "urn:1", some "a", "z"⟩ []
        [.element ⟨none, none, "b"⟩ [⟨⟨some Namespace.declarations, none, "xmlns"⟩, ""⟩] []],
      .element ⟨some "urn:d", none, "c"⟩
        [⟨⟨some Namespace.xml, some "xml", "space"⟩, "preserve"⟩] []]

/-- The declaration on the second element matters to that element only. -/
theorem namedBy_lineage_shadowing :
    LegalText shadowingText ∧ readText shadowingText = .ok shadowing ∧
      ∀ path node, shadowing.at? path = some node →
        Node.NamedBy (shadowing.lineage path node) node := by
  have legal : LegalText shadowingText := by decide +kernel
  have read : readText shadowingText = .ok shadowing := readText_of_outline (by decide +kernel)
  exact ⟨legal, read, (namedBy_lineage legal read).1⟩

end Markup

end TemplateFill
