import Mathlib.Data.List.Nodup
import TemplateFill.Proofs.Markup.Reading
import TemplateFill.Proofs.Markup.Reread

/-!
# Documents that declare their namespaces at the root

Where only the root has declarations, all names of a document are resolved in one scope, so that
what can be written of a node and read back is a property of labels.  Every document that has been
read has it, if its names are legal and its attributes without qualifier are in no namespace.
-/

namespace TemplateFill

open Markup Text

/-- The names of a label have the namespaces that a scope gives them. -/
structure NamesIn (scope : Scope) (label : Label) : Prop where
  element : ∀ name, label.name? = some name → name.IsElementIn scope
  attrs : ∀ attr ∈ label.attrs, attr.name.IsAttrIn scope

/-- A label that can be written and read back where all declarations are those of `scope`. -/
structure LabelIn (scope : Scope) (label : Label) : Prop where
  legal : label.Legal
  distinct : label.DistinctAttrs
  notEmpty : label ≠ .text ""
  names : NamesIn scope label
  declares : declarations label.attrs = [] ∨ declarations label.attrs = scope

/-- A label that can be written where all declarations are those of `scope`, so that its names are
read back. -/
structure NamedIn (scope : Scope) (label : Label) : Prop where
  writable : label.Writable
  distinct : label.DistinctAttrs
  names : NamesIn scope label
  declares : declarations label.attrs = [] ∨ declarations label.attrs = scope

theorem LabelIn.named {scope : Scope} {label : Label} (labelIn : LabelIn scope label) :
    NamedIn scope label :=
  ⟨labelIn.legal.writable, labelIn.distinct, labelIn.names, labelIn.declares⟩

instance (scope : Scope) (label : Label) : Decidable (NamesIn scope label) :=
  decidable_of_iff
    ((∀ name ∈ label.name?, name.IsElementIn scope) ∧
      ∀ attr ∈ label.attrs, attr.name.IsAttrIn scope)
    ⟨fun both => ⟨both.1, both.2⟩, fun namesIn => ⟨namesIn.element, namesIn.attrs⟩⟩

instance (scope : Scope) (label : Label) : Decidable (LabelIn scope label) :=
  decidable_of_iff
    (label.Legal ∧ label.DistinctAttrs ∧ label ≠ .text "" ∧ NamesIn scope label ∧
      (declarations label.attrs = [] ∨ declarations label.attrs = scope))
    ⟨fun all => ⟨all.1, all.2.1, all.2.2.1, all.2.2.2.1, all.2.2.2.2⟩,
      fun labelIn => ⟨labelIn.legal, labelIn.distinct, labelIn.notEmpty, labelIn.names,
        labelIn.declares⟩⟩

/-- An attribute without qualifier is in no namespace, unless it is a declaration. -/
def Attr.PlainIfBare (attr : Attr) : Prop :=
  attr.name.qualifier = none → attr.name.IsAttrIn []

instance : DecidablePred Attr.PlainIfBare := fun attr =>
  inferInstanceAs (Decidable (attr.name.qualifier = none → attr.name.IsAttrIn []))

/-- Only declarations are in the namespace of declarations. -/
def OnlyDeclarations (attrs : List Attr) : Prop :=
  ∀ attr ∈ attrs, attr.name.ns = some Namespace.declarations → attr.declares?.isSome = true

instance : DecidablePred OnlyDeclarations := fun attrs =>
  inferInstanceAs (Decidable (∀ attr ∈ attrs,
    attr.name.ns = some Namespace.declarations → attr.declares?.isSome = true))

/-- A document with legal names and comments whose declarations are all at the root. -/
structure DeclaredAtRoot (root : Node) : Prop where
  legal : Node.EveryLabel Label.Legal root
  below : ∀ child ∈ root.children,
    Node.EveryLabel (fun label => declarations label.attrs = []) child

/-- What else is needed to read a document back, and what reading it for the first time does not
give: a text can be empty, and an attribute whose key starts with a colon gets the name without
the colon, in the default namespace. -/
structure Settled (root : Node) : Prop where
  notEmpty : Node.EveryLabel (· ≠ .text "") root
  distinct : Node.EveryLabel Label.DistinctAttrs root
  bare : Node.EveryLabel (fun label => ∀ attr ∈ label.attrs, attr.PlainIfBare) root
  onlyDeclarations : OnlyDeclarations root.attrs

/-! ## Scopes that agree -/

section Agree

variable {left right : Scope} {name : QName}

theorem namespaceIn_congr (agree : ∀ qualifier, left.lookup qualifier = right.lookup qualifier)
    (qualifier : String) : namespaceIn left qualifier = namespaceIn right qualifier := by
  rw [namespaceIn, namespaceIn, agree]

theorem QName.IsElementIn.congr (nameIn : name.IsElementIn left)
    (agree : ∀ qualifier, left.lookup qualifier = right.lookup qualifier) :
    name.IsElementIn right := by
  rw [IsElementIn, ← namespaceIn_congr agree]
  exact nameIn

theorem QName.IsAttrIn.congr (nameIn : name.IsAttrIn left)
    (agree : ∀ qualifier, left.lookup qualifier = right.lookup qualifier) :
    name.IsAttrIn right := by
  have namespaces : namespaceIn left = namespaceIn right := funext (namespaceIn_congr agree)
  rw [IsAttrIn, ← namespaces]
  exact nameIn

/-- Declaring again what is in scope changes nothing. -/
private theorem lookup_declared {scope outer inner : Scope}
    (agree : ∀ qualifier, outer.lookup qualifier = scope.lookup qualifier)
    (declares : inner = [] ∨ inner = scope) (qualifier : String) :
    (inner ++ outer).lookup qualifier = scope.lookup qualifier := by
  rcases declares with rfl | rfl
  · exact agree qualifier
  · rw [List.lookup_append, agree, Option.or_self]

end Agree

private theorem scoped_of_labels {scope outer : Scope}
    (agree : ∀ qualifier, outer.lookup qualifier = scope.lookup qualifier) {node : Node}
    (every : Node.EveryLabel (NamedIn scope) node) : Scoped outer node := by
  induction node using Node.treeInduction generalizing outer with
  | element name attrs children ih =>
      rcases Node.everyLabel_element.1 every with ⟨top, below⟩
      have inner := lookup_declared agree top.declares
      refine .element ?_ ?_ ?_
      · exact (top.names.element name rfl).congr fun qualifier => (inner qualifier).symm
      · exact fun attr member =>
          (top.names.attrs attr member).congr fun qualifier => (inner qualifier).symm
      · exact fun child member => ih child member inner (below child member)
  | text => exact .text
  | comment => exact .comment

/-- Where all labels can be read back in the scope of the root, all names are in their scopes. -/
theorem scoped_root {root : Node}
    (every : Node.EveryLabel (NamedIn (declarations root.attrs)) root) : Scoped [] root := by
  cases root with
  | element name attrs children =>
      rcases Node.everyLabel_element.1 every with ⟨top, below⟩
      have whole : declarations attrs ++ [] = declarations attrs := List.append_nil _
      refine .element ?_ ?_ ?_
      · rw [whole]
        exact top.names.element name rfl
      · rw [whole]
        exact top.names.attrs
      · rw [whole]
        exact fun child member => scoped_of_labels (fun _ => rfl) (below child member)
  | text => exact .text
  | comment => exact .comment

/-- Where nothing is declared below a scope, all names are in this scope. -/
private theorem namesIn_of_scoped {scope : Scope} {node : Node} (inScope : Scoped scope node)
    (bare : Node.EveryLabel (fun label => declarations label.attrs = []) node) :
    Node.EveryLabel (NamesIn scope) node := by
  induction node using Node.treeInduction with
  | element name attrs children ih =>
      rcases Node.everyLabel_element.1 bare with ⟨nothing, below⟩
      have none : declarations attrs = [] := nothing
      cases inScope with
      | element nameIn attrsIn inner =>
          simp only [none, List.nil_append] at nameIn attrsIn inner
          refine Node.everyLabel_element.2 ⟨⟨?_, attrsIn⟩, ?_⟩
          · rintro _ ⟨⟩
            exact nameIn
          · exact fun child member => ih child member (inner child member) (below child member)
  | text => exact Node.everyLabel_text.2 ⟨nofun, List.forall_mem_nil _⟩
  | comment => exact Node.everyLabel_comment.2 ⟨nofun, List.forall_mem_nil _⟩

/-- The labels of a document that can be written are named in the scope of its root, if all its
declarations are there. -/
theorem Writable.named {root : Node} (writable : Writable [] root)
    (bare : ∀ child ∈ root.children,
      Node.EveryLabel (fun label => declarations label.attrs = []) child) :
    Node.EveryLabel (NamedIn (declarations root.attrs)) root := by
  cases root with
  | element name attrs children =>
      have whole : declarations attrs ++ [] = declarations attrs := List.append_nil _
      cases writable.inScope with
      | element nameIn attrsIn inner =>
          rw [whole] at nameIn attrsIn inner
          refine Node.everyLabel_element.2
            ⟨⟨writable.labels.self, writable.distinct.self, ⟨?_, attrsIn⟩, .inr rfl⟩, ?_⟩
          · rintro _ ⟨⟩
            exact nameIn
          · intro child member node below
            have names := namesIn_of_scoped (inner child member) (bare child member)
            exact ⟨writable.labels.child member node below,
              writable.distinct.child member node below, names node below,
              .inl (bare child member node below)⟩
  | text =>
      exact Node.everyLabel_text.2
        ⟨trivial, List.nodup_nil, ⟨nofun, List.forall_mem_nil _⟩, .inl rfl⟩
  | comment =>
      exact Node.everyLabel_comment.2
        ⟨writable.labels.self, List.nodup_nil, ⟨nofun, List.forall_mem_nil _⟩, .inl rfl⟩

/-- Labels that are named in the scope of the root make a document that can be written. -/
theorem writable_of_named {root : Node}
    (named : Node.EveryLabel (NamedIn (declarations root.attrs)) root) : Writable [] root where
  labels inner member := (named inner member).writable
  distinct inner member := (named inner member).distinct
  inScope := scoped_root named

/-! ## What is declared -/

section Declared

variable {scope : Scope} {attrs : List Attr} {attr other : Attr} {qualifier uri : String}

/-- An attribute that declares a qualifier is named for it. -/
theorem name_of_declares (declares : attr.declares? = some (qualifier, uri)) :
    attr.value = uri ∧
      (attr.name.qualifier = none ∧ attr.name.localName = "xmlns" ∧ qualifier = "" ∨
        attr.name.qualifier = some "xmlns" ∧ attr.name.localName = qualifier) := by
  rw [Attr.declares?] at declares
  split at declares
  · rename_i bare
    split at declares
    · rename_i default
      cases declares
      exact ⟨rfl, .inl ⟨bare, default, rfl⟩⟩
    · cases declares
  · rename_i prefixed qualified
    split at declares
    · rename_i same
      cases declares
      exact ⟨rfl, .inr ⟨same ▸ qualified, rfl⟩⟩
    · cases declares

private theorem name_eq_of_declares (legal : attr.name.Legal) (legal' : other.name.Legal)
    (nameIn : attr.name.IsAttrIn scope) (nameIn' : other.name.IsAttrIn scope)
    {uri' : String} (declares : attr.declares? = some (qualifier, uri))
    (declares' : other.declares? = some (qualifier, uri')) : attr.name = other.name := by
  have solid : ∀ {name : QName}, name.Legal → name.localName ≠ "" := by
    intro name legal empty
    have simple := legal.localName
    rw [empty] at simple
    cases simple
  have parts : attr.name.qualifier = other.name.qualifier ∧
      attr.name.localName = other.name.localName := by
    rcases (name_of_declares declares).2 with ⟨bare, default, empty⟩ | ⟨prefixed, same⟩
    · rcases (name_of_declares declares').2 with ⟨bare', default', _⟩ | ⟨_, same'⟩
      · exact ⟨bare.trans bare'.symm, default.trans default'.symm⟩
      · exact absurd (same'.trans empty) (solid legal')
    · rcases (name_of_declares declares').2 with ⟨_, _, empty'⟩ | ⟨prefixed', same'⟩
      · exact absurd (same.trans empty') (solid legal)
      · exact ⟨prefixed.trans prefixed'.symm, same.trans same'.symm⟩
  have ns : attr.name.ns = other.name.ns := by rw [nameIn, nameIn', parts.1, parts.2]
  exact QName.eq_of_parts ns parts.1 parts.2

/-- The declaration that an attribute makes is the one in scope. -/
theorem lookup_declarations (legal : ∀ attr ∈ attrs, attr.name.Legal)
    (attrsIn : ∀ attr ∈ attrs, attr.name.IsAttrIn scope) (distinct : (attrs.map (·.name)).Nodup)
    (member : attr ∈ attrs) (declares : attr.declares? = some (qualifier, uri)) :
    (declarations attrs).lookup qualifier = some uri := by
  have found : ((declarations attrs).lookup qualifier).isSome = true := by
    rw [List.lookup_isSome_iff]
    exact ⟨(qualifier, uri), List.mem_filterMap.2 ⟨attr, member, declares⟩, beq_self_eq_true _⟩
  rcases Option.isSome_iff_exists.1 found with ⟨uri', first⟩
  rcases List.lookup_eq_some_iff.1 first with ⟨front, rest, split, _⟩
  have among : (qualifier, uri') ∈ declarations attrs := by
    rw [split]
    exact List.mem_append_right _ List.mem_cons_self
  rcases List.mem_filterMap.1 among with ⟨attr', member', declares'⟩
  have names := name_eq_of_declares (legal attr member) (legal attr' member')
    (attrsIn attr member) (attrsIn attr' member') declares declares'
  have same := List.inj_on_of_nodup_map distinct member member' names
  rw [← same, declares] at declares'
  rw [first, (Prod.mk.inj (Option.some.inj declares')).2]

end Declared

/-! ## Documents that have been read -/

section Read

variable {scopes : List Declarations} {scope : Scope}

/-- An attribute as it has been resolved. -/
def resolved (scopes : List Declarations) (attr : RawAttr) : Attr :=
  ⟨attrName scopes attr.key, String.ofList attr.value⟩

private theorem qualifier_resolved (scopes : List Declarations) (attr : RawAttr) :
    (resolved scopes attr).name.qualifier =
      ((splitName attr.key).1.map String.ofList).filter (· ≠ "") := rfl

private theorem localName_resolved (scopes : List Declarations) (attr : RawAttr) :
    (resolved scopes attr).name.localName = String.ofList (splitName attr.key).2 := rfl

/-- An attribute is written as it was, unless its key starts with a colon. -/
private theorem raw_resolved (scopes : List Declarations) (attr : RawAttr) :
    (resolved scopes attr).raw = attr ∨
      (∃ rest, attr.key = ':' :: rest) ∧ (resolved scopes attr).name.qualifier = none := by
  have raw : (resolved scopes attr).name.written.toList = attr.key →
      (resolved scopes attr).raw = attr := by
    intro written
    rw [Attr.raw, written, resolved, String.toList_ofList]
  cases cut : cutFirst? ':' attr.key with
  | none =>
      have split : splitName attr.key = (none, attr.key) := by rw [splitName, cut]
      left
      apply raw
      rw [QName.written, qualifier_resolved, localName_resolved, split]
      exact String.toList_ofList
  | some parts =>
      rcases parts with ⟨qualifier, localName⟩
      have split : splitName attr.key = (some qualifier, localName) := by rw [splitName, cut]
      have key := (cutFirst?_eq_some cut).1
      cases qualifier with
      | nil =>
          right
          refine ⟨⟨localName, key⟩, ?_⟩
          rw [qualifier_resolved, split]
          rfl
      | cons first rest =>
          left
          apply raw
          have solid : String.ofList (first :: rest) ≠ "" := by
            intro empty
            have chars := congrArg String.toList empty
            rw [String.toList_ofList] at chars
            cases chars
          rw [QName.written, qualifier_resolved, localName_resolved, split, Option.map_some,
            Option.filter_some, if_pos (decide_eq_true solid), key]
          simp

/-- A key that starts with a colon declares nothing. -/
private theorem declaration?_of_colon {attr : RawAttr} {rest : List Char}
    (colon : attr.key = ':' :: rest) : attr.declaration? = none := by
  rw [RawAttr.declaration?, colon]
  rfl

private theorem declaration?_resolved {attr : RawAttr}
    (legal : (resolved scopes attr).name.Legal) :
    attr.declaration? = (resolved scopes attr).declares?.map
        (fun declared => (declared.1.toList, declared.2.toList)) ∨
      (∃ rest, attr.key = ':' :: rest) ∧ (resolved scopes attr).name.qualifier = none := by
  rcases raw_resolved scopes attr with same | bare
  · left
    have declared := declaration?_raw legal
    rw [same] at declared
    exact declared
  · exact .inr bare

/-- A tag declares nothing if its resolved attributes do not. -/
private theorem declarations_eq_nil {tag : Tag}
    (legal : ∀ attr ∈ tag.attrsIn scopes, attr.name.Legal)
    (none : TemplateFill.declarations (tag.attrsIn scopes) = []) : tag.declarations = [] := by
  rw [TemplateFill.declarations, List.filterMap_eq_nil_iff] at none
  rw [Tag.declarations, List.filterMap_eq_nil_iff]
  intro attr member
  have among : resolved scopes attr ∈ tag.attrsIn scopes := List.mem_map_of_mem member
  rcases declaration?_resolved (legal _ among) with same | ⟨⟨rest, colon⟩, _⟩
  · rw [same, none _ among]
    rfl
  · exact declaration?_of_colon colon

/-- The default namespace is never the one of declarations where an attribute is called `:xmlns`,
as there would be two of one name. -/
private theorem not_default_of_colon {tag : Tag} {attr : RawAttr}
    (legal : ∀ attr ∈ tag.attrsIn [tag.declarations], attr.name.Legal)
    (distinct : ((tag.attrsIn [tag.declarations]).map (·.name)).Nodup) (member : attr ∈ tag.attrs)
    {rest : List Char} (colon : attr.key = ':' :: rest) :
    (resolved [tag.declarations] attr).name ≠ ⟨some Namespace.declarations, none, "xmlns"⟩ := by
  intro name
  have cut : cutFirst? ':' attr.key = some ([], rest) := by
    rw [colon]
    rfl
  have default : resolveQualifier [tag.declarations] [] = some Namespace.declarations := by
    have ns := congrArg QName.ns name
    simpa [resolved, attrName, splitName, cut, QName.ofParts] using ns
  rw [resolveQualifier, if_neg (by decide), List.flatten_singleton] at default
  cases found : tag.declarations.lookup [] with
  | none =>
      rw [found] at default
      cases default
  | some uri =>
      rcases List.lookup_eq_some_iff.1 found with ⟨front, others, split, _⟩
      have among : ([], uri) ∈ tag.declarations := by
        rw [split]
        exact List.mem_append_right _ List.mem_cons_self
      rcases List.mem_filterMap.1 among with ⟨other, member', declares⟩
      have isLegal := legal _ (List.mem_map_of_mem member')
      rw [RawAttr.declaration?] at declares
      split at declares
      · -- The default namespace has been declared by an attribute of the same name.
        rename_i key
        have name' : (resolved [tag.declarations] other).name =
            ⟨some Namespace.declarations, none, "xmlns"⟩ := by
          simp only [resolved, key]
          rfl
        rw [Tag.attrsIn, List.map_map] at distinct
        have same := List.inj_on_of_nodup_map distinct member member' (name.trans name'.symm)
        rw [← same, colon] at key
        exact absurd (List.cons.inj key).1 (by decide)
      · rcases Option.map_eq_some_iff.1 declares with ⟨qualifier, stripped, parts⟩
        have key := eq_append_of_stripFront? stripped
        rw [(Prod.mk.inj parts).1, List.append_nil] at key
        have empty : (attrName [tag.declarations] other.key).localName = "" := by
          rw [key]
          rfl
        have simple := isLegal.localName
        rw [empty] at simple
        cases simple

/-- The declarations of a root tag are those of its resolved attributes. -/
private theorem declarations_root {tag : Tag}
    (legal : ∀ attr ∈ tag.attrsIn [tag.declarations], attr.name.Legal)
    (distinct : ((tag.attrsIn [tag.declarations]).map (·.name)).Nodup)
    (bare : ∀ attr ∈ tag.attrsIn [tag.declarations], attr.PlainIfBare) :
    tag.declarations = spelledOut (TemplateFill.declarations (tag.attrsIn [tag.declarations])) := by
  have each : ∀ attr ∈ tag.attrs, attr.declaration? =
      (resolved [tag.declarations] attr).declares?.map
        fun declared => (declared.1.toList, declared.2.toList) := by
    intro attr member
    have among : resolved [tag.declarations] attr ∈ tag.attrsIn [tag.declarations] :=
      List.mem_map_of_mem member
    rcases declaration?_resolved (legal _ among) with same | ⟨⟨rest, colon⟩, unqualified⟩
    · exact same
    · rw [declaration?_of_colon colon, Attr.declares?, unqualified]
      simp only
      split
      · rename_i default
        have ns := bare _ among unqualified
        rw [QName.IsAttrIn, unqualified] at ns
        simp only [if_pos default] at ns
        exact absurd (QName.eq_of_parts ns unqualified default)
          (not_default_of_colon legal distinct member colon)
      · rfl
  rw [Tag.declarations, List.filterMap_congr each, TemplateFill.declarations, spelledOut,
    Tag.attrsIn, List.filterMap_map, List.map_filterMap]
  rfl

theorem isElementIn_elementName (inScope : scopes.flatten = spelledOut scope)
    (name : List Char) : (elementName scopes name).IsElementIn scope := by
  have namespaces : ∀ qualifier, resolveQualifier scopes qualifier =
      namespaceIn scope (String.ofList qualifier) := by
    intro qualifier
    rw [← resolveQualifier_spelledOut inScope, String.toList_ofList]
  simp only [elementName, QName.IsElementIn, QName.ofParts, namespaces]
  cases qualified : (splitName name).1 with
  | none => rfl
  | some qualifier =>
      by_cases empty : String.ofList qualifier = ""
      · simp only [Option.getD_some, Option.map_some, empty]
        rfl
      · simp only [Option.getD_some, Option.map_some, Option.filter_some, ne_eq, empty,
          not_false_eq_true, decide_true, if_true]

theorem isAttrIn_resolved (inScope : scopes.flatten = spelledOut scope) {attr : RawAttr}
    (bare : (resolved scopes attr).PlainIfBare) : (resolved scopes attr).name.IsAttrIn scope := by
  by_cases unqualified : (resolved scopes attr).name.qualifier = none
  · have ns := bare unqualified
    rw [QName.IsAttrIn, unqualified] at ns ⊢
    exact ns
  · simp only [resolved, attrName, QName.ofParts] at unqualified ⊢
    cases qualified : (splitName attr.key).1 with
    | none => simp [qualified] at unqualified
    | some qualifier =>
        by_cases empty : String.ofList qualifier = ""
        · simp [qualified, empty] at unqualified
        · have namespaces : resolveQualifier scopes qualifier =
              namespaceIn scope (String.ofList qualifier) := by
            rw [← resolveQualifier_spelledOut inScope, String.toList_ofList]
          have reserved : qualifier = "xmlns".toList ↔ String.ofList qualifier = "xmlns" := by
            constructor
            · intro same
              rw [same]
              rfl
            · intro same
              rw [← same, String.toList_ofList]
          simp only [QName.IsAttrIn, Option.map_some, Option.filter_some, empty, ne_eq,
            not_false_eq_true, decide_true, if_true, reserved, namespaces]

theorem namesIn_text (content : String) : NamesIn scope (.text content) := by
  constructor
  · intro name none
    cases none
  · intro attr none
    cases none

theorem namesIn_comment (content : String) : NamesIn scope (.comment content) := by
  constructor
  · intro name none
    cases none
  · intro attr none
    cases none

/-- The names of an element are in the scope of its tag. -/
private theorem namesIn_of_tag {tag : Tag} (inScope : scopes.flatten = spelledOut scope)
    (bare : ∀ attr ∈ tag.attrsIn scopes, attr.PlainIfBare) :
    NamesIn scope (.element (elementName scopes tag.name) (tag.attrsIn scopes)) := by
  constructor
  · intro name same
    cases same
    exact isElementIn_elementName inScope tag.name
  · intro attr member
    have plain := bare attr member
    rcases List.mem_map.1 member with ⟨raw, _, same⟩
    cases same
    exact isAttrIn_resolved inScope plain

/-- The names below a root are in the scope of the root, if all declarations are there. -/
private theorem namesIn_of_built (inScope : scopes.flatten = spelledOut scope) {node : Node}
    (built : Built scopes node) (legal : Node.EveryLabel Label.Legal node)
    (bare : Node.EveryLabel (fun label => ∀ attr ∈ label.attrs, attr.PlainIfBare) node)
    (none : Node.EveryLabel (fun label => declarations label.attrs = []) node) :
    Node.EveryLabel (NamesIn scope) node := by
  induction node using Node.treeInduction generalizing scopes with
  | element name attrs children ih =>
      cases built with
      | @element _ tag _ below =>
          have nothing := declarations_eq_nil (Node.everyLabel_element.1 legal).1.2
            (Node.everyLabel_element.1 none).1
          have inner : (tag.declarations :: scopes).flatten = spelledOut scope := by
            rw [nothing]
            exact inScope
          refine Node.everyLabel_element.2 ⟨namesIn_of_tag inner bare.self, ?_⟩
          intro child member
          exact ih child member inner (below child member) (legal.child member)
            (bare.child member) (none.child member)
  | text content => exact Node.everyLabel_text.2 (namesIn_text content)
  | comment content => exact Node.everyLabel_comment.2 (namesIn_comment content)

/-- The labels of a document that has been read can be read back in the scope of its root. -/
theorem DeclaredAtRoot.everyLabel {root : Node} (declared : DeclaredAtRoot root)
    (settled : Settled root) (built : Built [] root) :
    Node.EveryLabel (LabelIn (declarations root.attrs)) root := by
  have names : Node.EveryLabel (NamesIn (declarations root.attrs)) root := by
    cases built with
    | @element _ tag children below =>
        have inScope : [tag.declarations].flatten =
            spelledOut (declarations (tag.attrsIn [tag.declarations])) := by
          rw [List.flatten_singleton]
          exact declarations_root declared.legal.self.2 settled.distinct.self settled.bare.self
        refine Node.everyLabel_element.2 ⟨namesIn_of_tag inScope settled.bare.self, ?_⟩
        intro child member
        exact namesIn_of_built inScope (below child member) (declared.legal.child member)
          (settled.bare.child member) (declared.below child member)
    | text => exact Node.everyLabel_text.2 (namesIn_text _)
    | comment => exact Node.everyLabel_comment.2 (namesIn_comment _)
  have declares : Node.EveryLabel (fun label => declarations label.attrs = [] ∨
      declarations label.attrs = declarations root.attrs) root := by
    intro inner member
    rcases List.mem_cons.1 member with rfl | below
    · exact .inr rfl
    · left
      cases root with
      | element name attrs children =>
          rcases Node.mem_descendantsOfAll.1 below with ⟨child, among, inside⟩
          exact declared.below child among inner inside
      | text | comment => cases below
  intro inner member
  exact ⟨declared.legal inner member, settled.distinct inner member,
    settled.notEmpty inner member, names inner member, declares inner member⟩

end Read

end TemplateFill
