import TemplateFill.Package.Chunk
import TemplateFill.Proofs.Markup.Canonical
import TemplateFill.Proofs.Markup.LegalText
import TemplateFill.Proofs.Markup.Listing
import TemplateFill.Proofs.Markup.Spelling

/-!
# Documents that take chunks

A chunk takes the place of a paragraph, and the root gets a declaration for the reference in it
unless there is one.  What is written of the document is read back with the same elements, the
chunk and its reference included, and with the same texts if that was so before.
-/

namespace TemplateFill

open Markup Node

/-- No name of a label is written with a qualifier. -/
def Label.Avoids (qualifier : String) (label : Label) : Prop :=
  (∀ name ∈ label.name?, name.qualifier ≠ some qualifier) ∧
    ∀ attr ∈ label.attrs, attr.name.qualifier ≠ some qualifier

instance (qualifier : String) : DecidablePred (Label.Avoids qualifier) := fun label =>
  inferInstanceAs (Decidable ((∀ name ∈ label.name?, name.qualifier ≠ some qualifier) ∧
    ∀ attr ∈ label.attrs, attr.name.qualifier ≠ some qualifier))

/-- A root that declares a qualifier for references, and not by default. -/
structure BindsReferences (attrs : List Attr) : Prop where
  declares : Declares attrs Namespace.relationshipReference
  notDefault : ("", Namespace.relationshipReference) ∉ declarations attrs

/-- A document whose root has a qualifier for references, or in which the usual one is free. -/
inductive TakesReferences (root : Node) : Prop where
  | bound (binds : BindsReferences root.attrs)
  | free (undeclared : ¬ Declares root.attrs Namespace.relationshipReference)
      (undeclared' : ∀ declared ∈ declarations root.attrs, declared.1 ≠ "r")
      (avoided : EveryLabel (Label.Avoids "r") root)

/-- A document with all its declarations at the root, word-processing markup among them, whose
root leaves the reserved qualifiers and the namespace of declarations alone. -/
structure DeclaresAll (root : Node) : Prop where
  below : ∀ child ∈ root.children, EveryLabel (fun label => declarations label.attrs = []) child
  word : Declares root.attrs Namespace.word
  reserved : NoReserved root.attrs
  only : OnlyDeclarations root.attrs

/-- A document that takes chunks: what is written of it is read back with the same elements. -/
structure HostsChunks (root : Node) : Prop extends DeclaresAll root where
  writable : Writable [] root
  references : TakesReferences root

/-- An element that refers to a chunk part. -/
inductive IsChunk (id : String) : Node → Prop where
  | mk {name key : QName} (isChunk : name.denotes Term.altChunk = true)
      (isReference : key.denotes Term.relationshipId = true) :
      IsChunk id (.element name [⟨key, id⟩] [])

/-- A document with a declaration for references, added to the root unless there is one. -/
inductive DeclaresReferences : Node → Node → Prop where
  | before {root : Node} (declares : Declares root.attrs Namespace.relationshipReference) :
      DeclaresReferences root root
  | added {name : QName} {attrs : List Attr} {children : List Node}
      (undeclared : ¬ Declares attrs Namespace.relationshipReference) :
      DeclaresReferences (.element name attrs children)
        (.element name (attrs ++ [declarationFor Namespace.relationshipReference "r"]) children)

/-! ## Texts around an element -/

section Replace

variable {passes : List Node → Node → Prop} {root target node : Node} {path : Path}

private theorem isBlankTextNode_of_isElement (element : node.isElement = true) :
    Frame.isBlankTextNode node = false := by
  cases node with
  | element => rfl
  | text | comment => cases element

private theorem text?_of_isElement (element : node.isElement = true) : node.text? = none := by
  cases node with
  | element => rfl
  | text | comment => cases element

/-- Putting an element in the place of an element keeps the texts around it. -/
theorem TextsKept.replace {left right : List Node} (kept : TextsKept (left ++ target :: right))
    (before : target.isElement = true) (after : node.isElement = true) :
    TextsKept (left ++ node :: right) := by
  rcases kept with ⟨notEmpty, apart, notIndentation⟩
  have noText := text?_of_isElement after
  have blanks := notIndentation (by simp [before])
  rw [List.forall_mem_append, List.forall_mem_cons] at notEmpty blanks
  refine ⟨?_, ?_, fun _ => ?_⟩
  · refine List.forall_mem_append.2 ⟨notEmpty.1, List.forall_mem_cons.2 ⟨?_, notEmpty.2.2⟩⟩
    rw [noText]
    exact nofun
  · rw [List.isChain_append] at apart ⊢
    rcases apart with ⟨leftApart, rightApart, _⟩
    refine ⟨leftApart, List.isChain_cons.2 ⟨fun _ _ => .inl noText, rightApart.tail⟩, ?_⟩
    rintro _ _ _ ⟨⟩
    exact .inr noText
  · exact List.forall_mem_append.2 ⟨blanks.1,
      List.forall_mem_cons.2 ⟨isBlankTextNode_of_isElement after, blanks.2.2⟩⟩

namespace Node

theorem Reaches.isElement_replaceAt (reached : Reaches passes root path target)
    (after : node.isElement = true) : (root.replaceAt path node).isElement = true := by
  cases reached with
  | here => exact after
  | down => rw [replaceAt_down]; rfl

theorem Reaches.isElement (reached : Reaches passes root path target)
    (before : target.isElement = true) : root.isElement = true := by
  cases reached with
  | here => exact before
  | down => rfl

theorem Reaches.keepsTexts_replaceAt (reached : Reaches passes root path target)
    (before : target.isElement = true) (after : node.isElement = true) (kept : KeepsTexts root)
    (fresh : KeepsTexts node) : KeepsTexts (root.replaceAt path node) := by
  induction reached with
  | here => exact fresh
  | @down name attrs left child right rest target passing inside ih =>
      rw [replaceAt_down]
      intro inner member
      have ofChild : ∀ sibling ∈ left ++ child :: right, ∀ inner ∈ sibling.selfAndDescendants,
          TextsKept inner.children := fun sibling among inner below =>
        kept inner (mem_selfAndDescendants_element.2 (.inr ⟨sibling, among, below⟩))
      rw [List.forall_mem_append, List.forall_mem_cons] at ofChild
      rcases mem_selfAndDescendants_element.1 member with rfl | ⟨sibling, among, below⟩
      · have top := kept _ (self_mem_selfAndDescendants _)
        exact TextsKept.replace top (inside.isElement before) (inside.isElement_replaceAt after)
      · rcases List.mem_append.1 among with onLeft | others
        · exact ofChild.1 sibling onLeft inner below
        · rcases List.mem_cons.1 others with rfl | onRight
          · exact ih before ofChild.2.1 inner below
          · exact ofChild.2.2 sibling onRight inner below

end Node

end Replace

/-! ## A declaration for references -/

namespace DeclaresReferences

variable {root declared : Node}

/-- A declaration at the root does not matter below. -/
theorem reaches (declares : DeclaresReferences root declared)
    {passes : List Node → Node → Prop} {target : Node} {path : Path}
    (reached : Reaches passes root path target) (notRoot : path ≠ []) :
    Reaches passes declared path target := by
  cases declares with
  | before => exact reached
  | added =>
      cases reached with
      | here => exact absurd rfl notRoot
      | down passing inside => exact .down passing inside

theorem keepsTexts (declares : DeclaresReferences root declared) (kept : KeepsTexts root) :
    KeepsTexts declared := by
  cases declares with
  | before => exact kept
  | @added name attrs children =>
      intro inner member
      rcases mem_selfAndDescendants_element.1 member with rfl | ⟨child, among, below⟩
      · exact kept (element name attrs children) (self_mem_selfAndDescendants _)
      · exact kept inner (mem_selfAndDescendants_element.2 (.inr ⟨child, among, below⟩))

end DeclaresReferences

namespace HostsChunks

variable {root : Node}

theorem isElement (hosts : HostsChunks root) : root.isElement = true := by
  cases root with
  | element => rfl
  | text | comment =>
      rcases hosts.word with ⟨qualifier, none⟩
      cases none

theorem readBytes_eq_reread (hosts : HostsChunks root) :
    readBytes root.toBytes = .ok root.reread :=
  hosts.writable.readBytes_eq_reread hosts.isElement

/-- What is read back takes chunks again. -/
theorem reread (hosts : HostsChunks root) : HostsChunks root.reread := by
  have attrs := attrs_reread root
  refine ⟨⟨?below, ?word, ?reserved, ?only⟩, hosts.writable.reread, ?references⟩
  case below =>
    intro child member
    rcases mem_children_reread member with ⟨content, rfl⟩ | ⟨source, among, rfl⟩
    · exact everyLabel_text.2 rfl
    · exact (hosts.below source among).reread fun _ => rfl
  case word =>
    rw [attrs]
    exact hosts.word
  case reserved =>
    rw [attrs]
    exact hosts.reserved
  case only =>
    rw [attrs]
    exact hosts.only
  case references =>
    cases hosts.references with
    | bound binds =>
        apply TakesReferences.bound
        rw [attrs]
        exact binds
    | free undeclared noQualifier avoided =>
        refine .free ?_ ?_ (avoided.reread fun _ => ⟨nofun, List.forall_mem_nil _⟩)
        · rw [attrs]
          exact undeclared
        · rw [attrs]
          exact noQualifier

/-- A document that was read from a part with legal names. -/
theorem of_readBytes {bytes : Bytes} (all : DeclaresAll root) (references : TakesReferences root)
    (legal : LegalNames bytes) (read : readBytes bytes = .ok root) : HostsChunks root :=
  ⟨all, (writable_of_readBytes legal read).1, references⟩

private theorem namedIn_concat {scope : Scope} {ns : String} {label : Label}
    (named : NamedIn scope label) (bare : declarations label.attrs = [])
    (avoids : label.Avoids "r") : NamedIn (scope ++ [("r", ns)]) label where
  writable := named.writable
  distinct := named.distinct
  names := by
    constructor
    · intro name isName
      exact (named.names.element name isName).concat (by decide) (avoids.1 name isName)
    · intro attr member
      exact (named.names.attrs attr member).concat (avoids.2 attr member)
  declares := .inl bare

private theorem namedIn_root {name : QName} {attrs : List Attr} {ns : String}
    (named : NamedIn (declarations attrs) (.element name attrs))
    (avoids : (Label.element name attrs).Avoids "r")
    (undeclared : ∀ declared ∈ declarations attrs, declared.1 ≠ "r")
    (scope : declarations (attrs ++ [declarationFor ns "r"]) = declarations attrs ++ [("r", ns)]) :
    NamedIn (declarations attrs ++ [("r", ns)])
      (.element name (attrs ++ [declarationFor ns "r"])) where
  writable := by
    have legal : (declarationFor ns "r").name.Legal :=
      show (⟨some Namespace.declarations, some "xmlns", "r"⟩ : QName).Legal by decide
    exact ⟨named.writable.1, List.forall_mem_append.2
      ⟨named.writable.2, List.forall_mem_singleton.2 legal⟩⟩
  distinct := by
    have fresh : (declarationFor ns "r").name ∉ attrs.map (·.name) := by
      intro member
      rcases List.mem_map.1 member with ⟨attr, among, same⟩
      have declares : attr.declares? = some ("r", attr.value) := by
        rw [Attr.declares?, same]
        rfl
      exact undeclared _ (List.mem_filterMap.2 ⟨attr, among, declares⟩) rfl
    have whole : (attrs ++ [declarationFor ns "r"]).map (·.name) =
        attrs.map (·.name) ++ [(declarationFor ns "r").name] := List.map_append
    rw [Label.DistinctAttrs, Label.attrs, whole, List.nodup_append]
    refine ⟨named.distinct, List.nodup_singleton _, ?_⟩
    rintro old isOld new isNew rfl
    rw [List.mem_singleton.1 isNew] at isOld
    exact fresh isOld
  names := by
    constructor
    · intro inner isName
      exact (named.names.element inner isName).concat (by decide) (avoids.1 inner isName)
    · refine List.forall_mem_append.2 ⟨?_, List.forall_mem_singleton.2 rfl⟩
      exact fun attr member => (named.names.attrs attr member).concat (avoids.2 attr member)
  declares := .inr scope

section Free

variable {name : QName} {attrs : List Attr} {children : List Node}

private theorem scope_declared (attrs : List Attr) :
    declarations (attrs ++ [declarationFor Namespace.relationshipReference "r"]) =
      declarations attrs ++ [("r", Namespace.relationshipReference)] :=
  declarations_concat attrs _ _

private theorem bindsReferences_declared
    (undeclared : ¬ Declares attrs Namespace.relationshipReference) :
    BindsReferences (attrs ++ [declarationFor Namespace.relationshipReference "r"]) := by
  constructor
  · exact ⟨"r", by rw [scope_declared]; exact List.mem_concat_self⟩
  · rw [scope_declared, List.mem_append]
    rintro (default | usual)
    · exact undeclared ⟨"", default⟩
    · exact absurd usual (by decide)

/-- Where the qualifier for references is free, a document takes chunks with a declaration of it. -/
private theorem of_declared (hosts : HostsChunks (.element name attrs children))
    (undeclared : ¬ Declares attrs Namespace.relationshipReference)
    (noQualifier : ∀ declared ∈ declarations attrs, declared.1 ≠ "r")
    (avoided : EveryLabel (·.Avoids "r") (.element name attrs children)) :
    HostsChunks (.element name (attrs ++ [declarationFor Namespace.relationshipReference "r"])
      children) where
  below := hosts.below
  word := by
    rcases hosts.word with ⟨qualifier, member⟩
    rw [attrs_element, Declares, scope_declared]
    exact ⟨qualifier, List.mem_append_left _ member⟩
  reserved := by
    rw [attrs_element]
    constructor
    · rw [scope_declared]
      exact List.forall_mem_append.2 ⟨hosts.reserved.noXml,
        List.forall_mem_singleton.2 (by decide)⟩
    · rw [scope_declared]
      exact List.forall_mem_append.2 ⟨hosts.reserved.noXmlns,
        List.forall_mem_singleton.2 (by decide)⟩
  only := List.forall_mem_append.2 ⟨hosts.only, List.forall_mem_singleton.2 fun _ => rfl⟩
  writable := by
    have named : EveryLabel (NamedIn (declarations attrs)) (.element name attrs children) :=
      hosts.writable.named hosts.below
    apply writable_of_named
    rw [attrs_element, scope_declared]
    refine everyLabel_element.2 ⟨?_, ?_⟩
    · exact namedIn_root named.self avoided.self noQualifier (scope_declared attrs)
    · intro child member inner below
      exact namedIn_concat (named.child member inner below)
        (hosts.below child member inner below) (avoided.child member inner below)
  references := .bound (bindsReferences_declared undeclared)

end Free

/-- With a declaration for references a document still takes chunks. -/
theorem declare (hosts : HostsChunks root) :
    HostsChunks (root.declare Namespace.relationshipReference "r") ∧
      BindsReferences (root.declare Namespace.relationshipReference "r").attrs ∧
      DeclaresReferences root (root.declare Namespace.relationshipReference "r") := by
  cases root with
  | text | comment => cases hosts.isElement
  | element name attrs children =>
      have declaring := hosts.writable.declaring hosts.only
      have declared : (declaredQualifier? attrs Namespace.relationshipReference).isSome = true ↔
          Declares attrs Namespace.relationshipReference :=
        declaring.exists_declared_iff (by decide : Term.relationshipId.ns ≠ Namespace.xml)
      cases hosts.references with
      | bound binds =>
          have same : (element name attrs children).declare Namespace.relationshipReference "r" =
              element name attrs children := by
            rw [Node.declare, declareNamespace_of_declared (declared.2 binds.declares)]
          rw [same]
          exact ⟨hosts, binds, .before binds.declares⟩
      | free undeclared noQualifier avoided =>
          have one : (element name attrs children).declare Namespace.relationshipReference "r" =
              .element name (attrs ++ [declarationFor Namespace.relationshipReference "r"])
                children := by
            rw [Node.declare,
              declareNamespace_of_undeclared fun found => undeclared (declared.1 found)]
          rw [one]
          exact ⟨hosts.of_declared undeclared noQualifier avoided,
            bindsReferences_declared undeclared, .added undeclared⟩

/-! ## The chunk -/

/-- The chunk and its reference are read back in a document that declares their namespaces. -/
private theorem exists_chunk (hosts : HostsChunks root) (binds : BindsReferences root.attrs)
    (id : String) :
    EveryLabel (NamedIn (declarations root.attrs))
        (.element (root.spell Term.altChunk) [⟨root.spell Term.relationshipId, id⟩] []) ∧
      declarations [(⟨root.spell Term.relationshipId, id⟩ : Attr)] = [] ∧
      IsChunk id
        (.element (root.spell Term.altChunk) [⟨root.spell Term.relationshipId, id⟩] []) := by
  have declaring : Declaring root.attrs := by
    cases root with
    | element => exact hosts.writable.declaring hosts.only
    | text | comment => cases hosts.isElement
  have declares : Declares root.attrs Term.altChunk.ns := hosts.word
  have declares' : Declares root.attrs Term.relationshipId.ns := binds.declares
  rcases declaring.spelled_element declares (by decide) hosts.reserved.noXml (by decide) (by decide)
    with ⟨legal, nameIn⟩
  rcases declaring.spelled_attr declares' (by decide)
    hosts.reserved binds.notDefault (by decide) (by decide) with ⟨legal', attrIn⟩
  have nothing : declarations [(⟨root.spell Term.relationshipId, id⟩ : Attr)] = [] := by
    rw [declarations, List.filterMap_eq_nil_iff]
    intro attr member
    rw [List.mem_singleton.1 member, Option.eq_none_iff_forall_ne_some]
    intro declared declares
    have ns := ns_of_declares attrIn declares
    exact absurd (Option.some.inj ns) (by decide)
  refine ⟨everyLabel_element.2 ⟨⟨⟨legal, ?_⟩, List.nodup_singleton _, ⟨?_, ?_⟩, .inl nothing⟩, ?_⟩,
    nothing, .mk ?_ ?_⟩
  · exact List.forall_mem_singleton.2 legal'
  · rintro _ ⟨⟩
    exact nameIn
  · exact List.forall_mem_singleton.2 attrIn
  · exact List.forall_mem_nil _
  · exact QName.denotes_iff.2 ⟨rfl, rfl⟩
  · exact QName.denotes_iff.2 ⟨rfl, rfl⟩

/-- Below the root an element can take the place of another. -/
private theorem replaceAt_hosts {passes : List Node → Node → Prop} {name : QName}
    {attrs : List Attr} {target : Node} {path : Path} (hosts : HostsChunks root)
    (binds : BindsReferences root.attrs) (reached : Reaches passes root path target)
    (notRoot : path ≠ [])
    (named : EveryLabel (NamedIn (declarations root.attrs)) (.element name attrs []))
    (bare : declarations attrs = []) :
    HostsChunks (root.replaceAt path (.element name attrs [])) := by
  have bareChunk : EveryLabel (fun label => declarations label.attrs = [])
      (.element name attrs []) := everyLabel_element.2 ⟨bare, List.forall_mem_nil _⟩
  have all := hosts.writable.named hosts.below
  have whole := reached.everyLabel_replaceAt all named
  cases reached with
  | here => exact absurd rfl notRoot
  | @down rootName rootAttrs left child right rest target passing inside =>
      rw [replaceAt_down] at whole ⊢
      refine ⟨⟨?_, hosts.word, hosts.reserved, hosts.only⟩, writable_of_named whole, .bound binds⟩
      have below := hosts.below
      rw [children_element, List.forall_mem_append, List.forall_mem_cons] at below ⊢
      exact ⟨below.1, inside.everyLabel_replaceAt below.2.1 bareChunk, below.2.2⟩

/-- A document takes one chunk after the other. -/
theorem putChunk {passes : List Node → Node → Prop} {target : Node} {path : Path}
    (hosts : HostsChunks root) (reached : Reaches passes root path target) (notRoot : path ≠ [])
    (before : target.isElement = true) (id : String) :
    ∃ declared chunk, DeclaresReferences root declared ∧ IsChunk id chunk ∧
      root.putChunk path id = declared.replaceAt path chunk ∧
      HostsChunks (root.putChunk path id) ∧
      (KeepsTexts root → KeepsTexts (root.putChunk path id)) := by
  rcases hosts.declare with ⟨again, binds, declares⟩
  have still := declares.reaches reached notRoot
  rcases exists_chunk again binds id with ⟨named, bare, isChunk⟩
  refine ⟨_, _, declares, isChunk, rfl, replaceAt_hosts again binds still notRoot named bare, ?_⟩
  intro kept
  refine still.keepsTexts_replaceAt before rfl (declares.keepsTexts kept) ?_
  intro inner member
  rw [mem_selfAndDescendants_of_childless rfl] at member
  rw [member]
  exact show TextsKept [] by decide

end HostsChunks

end TemplateFill
