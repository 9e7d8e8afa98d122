import TemplateFill.Proofs.Bookmark.Texts
import TemplateFill.Proofs.Markup.Spelling

/-!
# Documents that can be stored between substitutions

A document that declares its namespaces at the root, word-processing markup among them, and in
which every text stands alone is read back as it was written.  Substituting keeps it so: the nodes
it makes are named with the qualifier that the root declares.
-/

namespace TemplateFill

open Markup Node

/-- A root that declares word-processing markup and does not declare the qualifier `xml`. -/
structure DeclaresWord (attrs : List Attr) : Prop where
  word : ∃ qualifier, (qualifier, Namespace.word) ∈ declarations attrs
  noXml : ∀ declared ∈ declarations attrs, declared.1 ≠ "xml"

/-! ## New names -/

section Spelled

variable {name : QName} {attrs : List Attr} {term : Term}

private theorem declaring_of_named (only : OnlyDeclarations attrs)
    (root : NamedIn (declarations attrs) (.element name attrs)) : Declaring attrs :=
  ⟨root.writable.2, root.names.attrs, root.distinct, only⟩

private theorem named_spelled (declares : DeclaresWord attrs)
    (only : OnlyDeclarations attrs) (root : NamedIn (declarations attrs) (.element name attrs))
    (isWord : term.ns = Namespace.word) (simple : isSimpleName term.localName.toList = true)
    (blanks : Bool) :
    NamedIn (declarations attrs) (.element (term.spelled attrs)
      (if blanks then [⟨Term.space.spelled attrs, "preserve"⟩] else [])) := by
  have declared : Declares attrs term.ns := isWord ▸ declares.word
  have notXml : term.ns ≠ Namespace.xml := isWord ▸ by decide
  have filled : term.ns ≠ "" := isWord ▸ by decide
  rcases (declaring_of_named only root).spelled_element declared notXml declares.noXml filled
    simple with ⟨legal, nameIn⟩
  have space : Term.space.spelled attrs = ⟨some Namespace.xml, some "xml", "space"⟩ := rfl
  have spaceLegal : (⟨some Namespace.xml, some "xml", "space"⟩ : QName).Legal := by decide
  have spaceIn : (⟨some Namespace.xml, some "xml", "space"⟩ : QName).IsAttrIn
      (declarations attrs) := rfl
  cases blanks with
  | false =>
      refine ⟨⟨legal, List.forall_mem_nil _⟩, List.nodup_nil, ⟨?_, ?_⟩, .inl rfl⟩
      · rintro _ ⟨⟩
        exact nameIn
      · exact List.forall_mem_nil _
  | true =>
      rw [space]
      refine ⟨⟨legal, ?_⟩, List.nodup_singleton _, ⟨?_, ?_⟩, .inl rfl⟩
      · exact List.forall_mem_singleton.2 spaceLegal
      · rintro _ ⟨⟩
        exact nameIn
      · exact List.forall_mem_singleton.2 spaceIn

/-- The nodes that a substitution makes are named in the scope of a root that declares
word-processing markup. -/
theorem allowsNew_named (declares : DeclaresWord attrs) (only : OnlyDeclarations attrs)
    (root : NamedIn (declarations attrs) (.element name attrs)) (text : String) :
    AllowsNew (NamedIn (declarations attrs)) (Term.spelled · attrs) text where
  paragraph := named_spelled declares only root rfl (by decide) false
  run := named_spelled declares only root rfl (by decide) false
  runText := named_spelled declares only root rfl (by decide) (hasEdgeBlank text.toList)
  text _ := ⟨trivial, List.nodup_nil, ⟨nofun, List.forall_mem_nil _⟩, .inl rfl⟩

private theorem labelIn_of_named {scope : Scope}
    (named : NamedIn scope (.element name attrs)) : LabelIn scope (.element name attrs) :=
  ⟨named.writable, named.distinct, nofun, named.names, named.declares⟩

private theorem allowsNew_labelIn (declares : DeclaresWord attrs) (only : OnlyDeclarations attrs)
    (root : LabelIn (declarations attrs) (.element name attrs)) (text : String) :
    AllowsNew (LabelIn (declarations attrs)) (Term.spelled · attrs) text := by
  have allows := allowsNew_named declares only root.named text
  refine ⟨labelIn_of_named allows.paragraph, labelIn_of_named allows.run,
    labelIn_of_named allows.runText, fun filled => ?_⟩
  have named := allows.text filled
  refine ⟨trivial, named.distinct, ?_, named.names, named.declares⟩
  intro same
  cases same
  exact filled rfl

end Spelled

/-! ## What a substitution keeps -/

/-- Where texts stand alone, reading keeps all that are not empty. -/
theorem Node.TextsAlone.textsKept {root inner : Node} (alone : TextsAlone root)
    (notEmpty : EveryLabel (· ≠ .text "") root) (member : inner ∈ root.selfAndDescendants) :
    TextsKept inner.children := by
  have filled : ∀ child ∈ inner.children, child.text? ≠ some "" := by
    intro child isChild empty
    apply notEmpty child (mem_selfAndDescendants_child member isChild)
    cases child with
    | text content => exact congrArg Label.text (Option.some.inj empty)
    | element | comment => cases empty
  cases alone.of_mem member with
  | element noText below =>
      refine ⟨filled, ?_, ?_⟩
      · refine (List.pairwise_iff_forall_sublist.2 fun pair => ?_).isChain
        exact .inl (noText _ (pair.subset List.mem_cons_self))
      · intro _ child isChild
        rw [Frame.isBlankTextNode, noText child isChild]
        rfl
  | holding => exact ⟨filled, .singleton _, fun elements => by cases elements⟩
  | text | comment => exact ⟨filled, .nil, fun elements => by cases elements⟩

/-- A document can be read back if its labels can, in the scope of the root, and its texts stand
alone. -/
theorem readable_of_labels {root : Node}
    (labels : EveryLabel (LabelIn (declarations root.attrs)) root) (alone : TextsAlone root) :
    Readable [] root where
  legal inner member := (labels inner member).legal
  distinct inner member := (labels inner member).distinct
  texts _ member := alone.textsKept (fun inner among => (labels inner among).notEmpty) member
  inScope := scoped_root fun inner member => (labels inner member).named

/-- A document that is read back as it was written, and so is what a substitution makes of it. -/
structure Storable (root : Node) : Prop where
  labels : EveryLabel (LabelIn (declarations root.attrs)) root
  alone : TextsAlone root
  free : root.PlaceholderFree
  declares : DeclaresWord root.attrs
  onlyDeclarations : OnlyDeclarations root.attrs

namespace Storable

variable {root : Node}

/-- A document that has been read is storable if its declarations are at the root, its texts stand
alone and no node is a placeholder. -/
theorem of_built (built : Built [] root) (declared : DeclaredAtRoot root)
    (declares : DeclaresWord root.attrs) (free : root.PlaceholderFree) (lone : LoneTexts root)
    (settled : Settled root) : Storable root where
  labels := declared.everyLabel settled built
  alone := lone.textsAlone free
  free := free
  declares := declares
  onlyDeclarations := settled.onlyDeclarations

theorem isElement (storable : Storable root) : root.isElement = true := by
  cases root with
  | element => rfl
  | text | comment =>
      rcases storable.declares.word with ⟨qualifier, none⟩
      cases none

/-- What is written of a storable document can be read back. -/
theorem readable (storable : Storable root) : Readable [] root :=
  readable_of_labels storable.labels storable.alone

/-- A substitution makes a storable document of a storable document. -/
theorem substitute (storable : Storable root) {revised : Bool} {bookmark text : String}
    {filled : Node} (success : Bookmark.substitute root revised bookmark text = .ok filled) :
    Storable filled := by
  rcases Bookmark.exists_fills storable.free success with ⟨site, path, fills⟩
  have label := fills.label_eq storable.free
  have attrs : filled.attrs = root.attrs := congrArg Label.attrs label
  have allows : AllowsNew (LabelIn (declarations root.attrs)) root.spell text := by
    cases root with
    | element name attrs children =>
        exact allowsNew_labelIn storable.declares storable.onlyDeclarations storable.labels.self
          text
    | text | comment => cases storable.isElement
  constructor
  case labels =>
    rw [attrs]
    exact fills.everyLabel storable.free allows storable.labels
  case alone => exact fills.textsAlone storable.alone
  case free => exact fills.placeholderFree storable.free
  case declares =>
    rw [attrs]
    exact storable.declares
  case onlyDeclarations =>
    rw [attrs]
    exact storable.onlyDeclarations

end Storable

end TemplateFill
