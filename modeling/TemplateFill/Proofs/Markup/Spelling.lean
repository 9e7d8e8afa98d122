import TemplateFill.Proofs.Markup.Declared

/-!
# Spelling new names

A new element is written with a qualifier that the root declares for its namespace.  Where the
root declares the namespace, this name is read back as it was meant, as long as no attribute only
looks like a declaration and the reserved qualifiers are left alone.
-/

namespace TemplateFill

open Markup

/-- Attributes of a root that are read back as they are written, and of which none but declarations
is in the namespace of declarations. -/
structure Declaring (attrs : List Attr) : Prop where
  legal : ∀ attr ∈ attrs, attr.name.Legal
  inScope : ∀ attr ∈ attrs, attr.name.IsAttrIn (declarations attrs)
  distinct : (attrs.map (·.name)).Nodup
  only : OnlyDeclarations attrs

/-- A root that declares neither of the reserved qualifiers. -/
structure NoReserved (attrs : List Attr) : Prop where
  noXml : ∀ declared ∈ declarations attrs, declared.1 ≠ "xml"
  noXmlns : ∀ declared ∈ declarations attrs, declared.1 ≠ "xmlns"

instance : DecidablePred NoReserved := fun attrs =>
  decidable_of_iff
    ((∀ declared ∈ declarations attrs, declared.1 ≠ "xml") ∧
      ∀ declared ∈ declarations attrs, declared.1 ≠ "xmlns")
    ⟨fun both => ⟨both.1, both.2⟩, fun free => ⟨free.noXml, free.noXmlns⟩⟩

/-- A root that declares a namespace. -/
def Declares (attrs : List Attr) (ns : String) : Prop :=
  ∃ qualifier, (qualifier, ns) ∈ declarations attrs

instance (attrs : List Attr) (ns : String) : Decidable (Declares attrs ns) :=
  decidable_of_iff (∃ declared ∈ declarations attrs, declared.2 = ns) <| by
    constructor
    · rintro ⟨⟨qualifier, _⟩, member, rfl⟩
      exact ⟨qualifier, member⟩
    · rintro ⟨qualifier, member⟩
      exact ⟨(qualifier, ns), member, rfl⟩

section Declaring

variable {name : QName} {attrs : List Attr} {children : List Node} {term : Term}

theorem Writable.declaring (writable : Writable [] (.element name attrs children))
    (only : OnlyDeclarations attrs) : Declaring attrs where
  legal := writable.labels.self.2
  inScope := by
    cases writable.inScope with
    | element _ attrsIn =>
        rw [List.append_nil] at attrsIn
        exact attrsIn
  distinct := writable.distinct.self
  only := only

/-- A declaration is in the namespace of declarations. -/
theorem ns_of_declares {scope : Scope} {attr : Attr} {declared : String × String}
    (nameIn : attr.name.IsAttrIn scope) (declares : attr.declares? = some declared) :
    attr.name.ns = some Namespace.declarations := by
  rw [nameIn]
  rcases (name_of_declares declares).2 with ⟨bare, default, _⟩ | ⟨prefixed, _⟩
  · rw [bare, default]
    rfl
  · rw [prefixed]
    rfl

namespace Declaring

variable (declaring : Declaring attrs)

include declaring

/-- A namespace has a declared qualifier exactly if the root declares it. -/
theorem exists_declared_iff (notXml : term.ns ≠ Namespace.xml) :
    (declaredQualifier? attrs term.ns).isSome = true ↔ Declares attrs term.ns := by
  rw [declaredQualifier?, if_neg notXml, Option.isSome_map, List.find?_isSome]
  constructor
  · rintro ⟨attr, among, accepted⟩
    rw [Bool.and_eq_true, beq_iff_eq, beq_iff_eq] at accepted
    rcases Option.isSome_iff_exists.1 (declaring.only attr among accepted.1) with
      ⟨⟨qualifier, uri⟩, declared⟩
    refine ⟨qualifier, List.mem_filterMap.2 ⟨attr, among, ?_⟩⟩
    rw [declared, ← accepted.2, (name_of_declares declared).1]
  · rintro ⟨qualifier, member⟩
    rcases List.mem_filterMap.1 member with ⟨attr, among, declared⟩
    refine ⟨attr, among, ?_⟩
    rw [ns_of_declares (declaring.inScope attr among) declared, (name_of_declares declared).1]
    simp

/-- A word is spelled with a qualifier that the root declares for its namespace. -/
theorem exists_spelled (declares : Declares attrs term.ns) (notXml : term.ns ≠ Namespace.xml) :
    ∃ attr ∈ attrs, ∃ qualifier, attr.declares? = some (qualifier, term.ns) ∧
      term.spelled attrs = ⟨some term.ns, (some qualifier).filter (· ≠ ""), term.localName⟩ := by
  have found := (declaring.exists_declared_iff notXml).2 declares
  rw [declaredQualifier?, if_neg notXml, Option.isSome_map] at found
  rcases Option.isSome_iff_exists.1 found with ⟨attr, first⟩
  have among := List.mem_of_find?_eq_some first
  have accepted := List.find?_some first
  rw [Bool.and_eq_true, beq_iff_eq, beq_iff_eq] at accepted
  rcases Option.isSome_iff_exists.1 (declaring.only attr among accepted.1) with
    ⟨⟨qualifier, uri⟩, declared⟩
  have uriIs : uri = term.ns := by
    rw [← accepted.2]
    exact (name_of_declares declared).1.symm
  rw [uriIs] at declared
  refine ⟨attr, among, qualifier, declared, ?_⟩
  rw [Term.spelled, declaredQualifier?, if_neg notXml, first, QName.ofParts]
  rcases (name_of_declares declared).2 with ⟨bare, _, empty⟩ | ⟨prefixed, same⟩
  · rw [empty, Option.map_some, Option.getD_some, bare]
    rfl
  · rw [Option.map_some, Option.getD_some, prefixed, same]
    rfl

/-- The spelling is legal, and its qualifier means the namespace of the word. -/
theorem spelled_legal (declares : Declares attrs term.ns) (notXml : term.ns ≠ Namespace.xml)
    (simple : isSimpleName term.localName.toList = true) :
    (term.spelled attrs).Legal ∧ ∃ qualifier, (qualifier, term.ns) ∈ declarations attrs ∧
      (declarations attrs).lookup qualifier = some term.ns ∧
      term.spelled attrs = ⟨some term.ns, (some qualifier).filter (· ≠ ""), term.localName⟩ := by
  rcases declaring.exists_spelled declares notXml with ⟨attr, among, qualifier, declared, spelled⟩
  have looked := lookup_declarations declaring.legal declaring.inScope declaring.distinct among
    declared
  constructor
  · rw [spelled]
    refine ⟨simple, ?_⟩
    intro qualifier' kept
    rw [Option.filter_eq_some_iff] at kept
    rcases kept with ⟨same, filled⟩
    rcases (name_of_declares declared).2 with ⟨_, _, empty⟩ | ⟨_, named⟩
    · cases same
      exact absurd empty (of_decide_eq_true filled)
    · cases same
      rw [← named]
      exact (declaring.legal attr among).localName
  · exact ⟨qualifier, List.mem_filterMap.2 ⟨attr, among, declared⟩, looked, spelled⟩

/-- A spelled element is read back as it was meant. -/
theorem spelled_element (declares : Declares attrs term.ns) (notXml : term.ns ≠ Namespace.xml)
    (noXml : ∀ declared ∈ declarations attrs, declared.1 ≠ "xml") (filled : term.ns ≠ "")
    (simple : isSimpleName term.localName.toList = true) :
    (term.spelled attrs).Legal ∧ (term.spelled attrs).IsElementIn (declarations attrs) := by
  rcases declaring.spelled_legal declares notXml simple with
    ⟨legal, qualifier, member, looked, spelled⟩
  refine ⟨legal, ?_⟩
  have whole : ((some qualifier).filter (· ≠ "")).getD "" = qualifier := by
    by_cases empty : qualifier = ""
    · rw [empty]
      rfl
    · rw [Option.filter_some, if_pos (decide_eq_true empty), Option.getD_some]
  have kept : (some term.ns).filter (· ≠ "") = some term.ns := by
    rw [Option.filter_some, if_pos (decide_eq_true filled)]
  rw [spelled, QName.IsElementIn, whole, namespaceIn, if_neg (noXml _ member), looked, kept]

/-- A spelled attribute is read back as it was meant, where its namespace is not the default. -/
theorem spelled_attr (declares : Declares attrs term.ns) (notXml : term.ns ≠ Namespace.xml)
    (free : NoReserved attrs) (notDefault : ("", term.ns) ∉ declarations attrs)
    (filled : term.ns ≠ "") (simple : isSimpleName term.localName.toList = true) :
    (term.spelled attrs).Legal ∧ (term.spelled attrs).IsAttrIn (declarations attrs) := by
  rcases declaring.spelled_legal declares notXml simple with
    ⟨legal, qualifier, member, looked, spelled⟩
  refine ⟨legal, ?_⟩
  have solid : qualifier ≠ "" := by
    rintro rfl
    exact notDefault member
  have whole : (some qualifier).filter (· ≠ "") = some qualifier := by
    rw [Option.filter_some, if_pos (decide_eq_true solid)]
  rw [spelled, QName.IsAttrIn, whole]
  simp only
  rw [if_neg (free.noXmlns _ member), namespaceIn, if_neg (free.noXml _ member), looked,
    Option.filter_some, if_pos (decide_eq_true filled)]

end Declaring

/-- The root declares the namespace of its own name. -/
theorem declares_of_ns {scope : Scope} {ns : String} (nameIn : name.IsElementIn scope)
    (isNs : name.ns = some ns) (notXml : ns ≠ Namespace.xml) :
    ∃ qualifier, (qualifier, ns) ∈ scope := by
  rw [QName.IsElementIn, isNs, namespaceIn.eq_def] at nameIn
  split at nameIn
  · exact absurd (Option.some.inj nameIn) notXml
  · have looked := (Option.filter_eq_some_iff.1 nameIn.symm).1
    rcases List.lookup_eq_some_iff.1 looked with ⟨front, rest, split, _⟩
    refine ⟨name.qualifier.getD "", ?_⟩
    rw [split]
    exact List.mem_append_right _ List.mem_cons_self

end Declaring

/-! ## One declaration more -/

section Declare

variable {attrs : List Attr} {ns qualifier : String}

/-- A declaration as it is added to a root. -/
def declarationFor (ns qualifier : String) : Attr :=
  ⟨⟨some Namespace.declarations, some "xmlns", qualifier⟩, ns⟩

theorem declareNamespace_of_declared (declared : (declaredQualifier? attrs ns).isSome = true) :
    declareNamespace attrs ns qualifier = attrs := by
  rw [declareNamespace, if_pos declared]

theorem declareNamespace_of_undeclared
    (undeclared : ¬ (declaredQualifier? attrs ns).isSome = true) :
    declareNamespace attrs ns qualifier = attrs ++ [declarationFor ns qualifier] := by
  rw [declareNamespace, if_neg undeclared]
  rfl

theorem declarations_concat (attrs : List Attr) (ns qualifier : String) :
    declarations (attrs ++ [declarationFor ns qualifier]) =
      declarations attrs ++ [(qualifier, ns)] := by
  rw [declarations, List.filterMap_append]
  rfl

/-- One declaration more matters to names with its qualifier only. -/
theorem namespaceIn_concat {scope : Scope} {other : String} (apart : other ≠ qualifier) :
    namespaceIn (scope ++ [(qualifier, ns)]) other = namespaceIn scope other := by
  rw [namespaceIn, namespaceIn, List.lookup_append, List.lookup_cons, beq_false_of_ne apart]
  simp

theorem QName.IsElementIn.concat {scope : Scope} {name : QName} (nameIn : name.IsElementIn scope)
    (solid : qualifier ≠ "") (apart : name.qualifier ≠ some qualifier) :
    name.IsElementIn (scope ++ [(qualifier, ns)]) := by
  have other : name.qualifier.getD "" ≠ qualifier := by
    cases qualified : name.qualifier with
    | none => exact Ne.symm solid
    | some inner =>
        rintro rfl
        exact apart qualified
  rw [IsElementIn, namespaceIn_concat other]
  exact nameIn

theorem QName.IsAttrIn.concat {scope : Scope} {name : QName} (nameIn : name.IsAttrIn scope)
    (apart : name.qualifier ≠ some qualifier) : name.IsAttrIn (scope ++ [(qualifier, ns)]) := by
  rw [IsAttrIn] at nameIn ⊢
  cases qualified : name.qualifier with
  | none =>
      rw [qualified] at nameIn
      exact nameIn
  | some inner =>
      rw [qualified] at nameIn
      have other : inner ≠ qualifier := by
        rintro rfl
        exact apart qualified
      simp only [namespaceIn_concat other]
      exact nameIn

end Declare

end TemplateFill
