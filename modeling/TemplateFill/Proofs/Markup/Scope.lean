import TemplateFill.Proofs.Markup.TagBack
import TemplateFill.Proofs.Text.Cut

/-!
# Namespaces in scope

The namespace of a name is the one that the declarations on its element and on the elements
around it give its qualifier, the innermost first.  Reading a written name in the same scope gives
the name.
-/

namespace TemplateFill

open Markup Text

/-- The qualifier that an attribute declares, empty for the default namespace, and the namespace
it is declared for. -/
def Attr.declares? (attr : Attr) : Option (String × String) :=
  match attr.name.qualifier with
  | none => if attr.name.localName = "xmlns" then some ("", attr.value) else none
  | some qualifier =>
      if qualifier = "xmlns" then some (attr.name.localName, attr.value) else none

/-- Qualifiers with their namespaces, the innermost declaration first. -/
abbrev Scope := List (String × String)

/-- The declarations of one element. -/
def declarations (attrs : List Attr) : Scope := attrs.filterMap Attr.declares?

/-- The namespace of a qualifier in a scope. -/
def namespaceIn (scope : Scope) (qualifier : String) : Option String :=
  if qualifier = "xml" then some Namespace.xml
  else (scope.lookup qualifier).filter (· ≠ "")

namespace QName

theorem eq_of_parts {name other : QName} (ns : name.ns = other.ns)
    (qualifier : name.qualifier = other.qualifier) (localName : name.localName = other.localName) :
    name = other := by
  cases name
  cases other
  exact QName.mk.injEq .. ▸ ⟨ns, qualifier, localName⟩

/-- An element is in the namespace of its qualifier, without one in the default namespace. -/
def IsElementIn (scope : Scope) (name : QName) : Prop :=
  name.ns = namespaceIn scope (name.qualifier.getD "")

/-- An attribute is in the namespace of its qualifier, without one in none; declarations have a
namespace of their own. -/
def IsAttrIn (scope : Scope) (name : QName) : Prop :=
  name.ns =
    match name.qualifier with
    | none => if name.localName = "xmlns" then some Namespace.declarations else none
    | some qualifier =>
        if qualifier = "xmlns" then some Namespace.declarations else namespaceIn scope qualifier

instance (scope : Scope) (name : QName) : Decidable (IsElementIn scope name) :=
  inferInstanceAs (Decidable (_ = _))

instance (scope : Scope) (name : QName) : Decidable (IsAttrIn scope name) :=
  inferInstanceAs (Decidable (_ = _))

end QName

/-- The names in a tree have the namespaces that their scopes give them. -/
inductive Scoped : Scope → Node → Prop where
  | element {scope : Scope} {name : QName} {attrs : List Attr} {children : List Node}
      (nameIn : name.IsElementIn (declarations attrs ++ scope))
      (attrsIn : ∀ attr ∈ attrs, attr.name.IsAttrIn (declarations attrs ++ scope))
      (below : ∀ child ∈ children, Scoped (declarations attrs ++ scope) child) :
      Scoped scope (.element name attrs children)
  | text {scope : Scope} {content : String} : Scoped scope (.text content)
  | comment {scope : Scope} {content : String} : Scoped scope (.comment content)

namespace Markup

/-! ## Scopes as the reader has them -/

/-- A scope with its texts as lists of characters. -/
def spelledOut (scope : Scope) : Declarations :=
  scope.map fun declared => (declared.1.toList, declared.2.toList)

@[simp] theorem spelledOut_append (inner outer : Scope) :
    spelledOut (inner ++ outer) = spelledOut inner ++ spelledOut outer := List.map_append

theorem lookup_spelledOut (scope : Scope) (qualifier : String) :
    (spelledOut scope).lookup qualifier.toList = (scope.lookup qualifier).map String.toList := by
  induction scope with
  | nil => rfl
  | cons declared scope ih =>
      rw [spelledOut, List.map_cons, List.lookup_cons, List.lookup_cons]
      by_cases same : qualifier = declared.1
      · simp [same]
      · have apart : qualifier.toList ≠ declared.1.toList := fun equal =>
          same (String.toList_inj.1 equal)
        rw [beq_false_of_ne same, beq_false_of_ne apart]
        exact ih

theorem resolveQualifier_spelledOut {scopes : List Declarations} {scope : Scope}
    (inScope : scopes.flatten = spelledOut scope) (qualifier : String) :
    resolveQualifier scopes qualifier.toList = namespaceIn scope qualifier := by
  rw [resolveQualifier, namespaceIn, inScope, lookup_spelledOut]
  by_cases reserved : qualifier = "xml"
  · rw [if_pos (by rw [reserved]), if_pos reserved]
  · rw [if_neg (fun same => reserved (String.toList_inj.1 same)), if_neg reserved]
    cases found : scope.lookup qualifier with
    | none => rfl
    | some uri =>
        by_cases empty : uri = ""
        · rw [empty]
          rfl
        · rw [Option.filter_some, if_pos (decide_eq_true empty), Option.map_some]
          cases chars : uri.toList with
          | nil => exact absurd (String.toList_eq_nil_iff.1 chars) empty
          | cons first rest =>
              have back : String.ofList (first :: rest) = uri := by
                rw [← chars, String.ofList_toList]
              exact congrArg some back

/-! ## Written names -/

/-- A legal name is cut at its only colon. -/
theorem splitName_written {name : QName} (legal : name.Legal) :
    splitName name.written.toList =
      (name.qualifier.map String.toList, name.localName.toList) := by
  have noColon : isNameChar ':' = false := by decide
  rw [splitName, QName.written]
  cases qualified : name.qualifier with
  | none => simp [cutFirst?_eq_none (not_mem_of_isSimpleName legal.localName noColon)]
  | some qualifier =>
      have cut := cutFirst?_append
        (not_mem_of_isSimpleName (legal.qualifier qualifier qualified) noColon)
        name.localName.toList
      simp [cut]

/-- The way in which legal names are written tells their qualifiers and local names apart. -/
theorem written_inj {name other : QName} (legal : name.Legal) (legal' : other.Legal)
    (same : name.written.toList = other.written.toList) :
    name.qualifier = other.qualifier ∧ name.localName = other.localName := by
  have split := splitName_written legal
  rw [same, splitName_written legal', Prod.mk.injEq] at split
  refine ⟨?_, (String.toList_inj.1 split.2).symm⟩
  exact (Option.map_injective (fun _ _ => String.toList_inj.1) split.1).symm

section Declaration

variable {attr : Attr}

private theorem declaration?_raw_bare (legal : attr.name.Legal)
    (bare : attr.name.qualifier = none) :
    attr.raw.declaration? =
      attr.declares?.map fun declared => (declared.1.toList, declared.2.toList) := by
  have plain : ':' ∉ attr.name.localName.toList :=
    not_mem_of_isSimpleName legal.localName (by decide)
  rw [RawAttr.declaration?, Attr.declares?, Attr.raw, QName.written, bare]
  simp only
  by_cases default : attr.name.localName = "xmlns"
  · rw [if_pos (by rw [default]), if_pos default]
    rfl
  · rw [if_neg (fun same => default (String.toList_inj.1 same)), if_neg default]
    cases stripped : stripFront? "xmlns:".toList attr.name.localName.toList with
    | none => rfl
    | some rest =>
        rw [eq_append_of_stripFront? stripped] at plain
        exact absurd (List.mem_append_left rest (by decide)) plain

/-- A qualifier without a colon that can be taken off with the one behind it is the qualifier of
declarations: both texts have their first colon behind what they declare. -/
private theorem eq_of_stripFront?_xmlns {qualifier localName : String} {rest : List Char}
    (simple : ':' ∉ qualifier.toList)
    (stripped : stripFront? "xmlns:".toList (qualifier.toList ++ ':' :: localName.toList) =
      some rest) : qualifier = "xmlns" := by
  have cut := cutFirst?_append simple localName.toList
  have free : ':' ∉ "xmlns".toList := by decide
  have cut' := cutFirst?_append free rest
  have same : qualifier.toList ++ ':' :: localName.toList = "xmlns:".toList ++ rest :=
    eq_append_of_stripFront? stripped
  rw [same] at cut
  have parts := Prod.mk.inj (Option.some.inj (cut'.symm.trans cut))
  exact String.toList_inj.1 parts.1.symm

private theorem declaration?_raw_qualified {qualifier : String} (legal : attr.name.Legal)
    (qualified : attr.name.qualifier = some qualifier) :
    attr.raw.declaration? =
      attr.declares?.map fun declared => (declared.1.toList, declared.2.toList) := by
  have simple : ':' ∉ qualifier.toList :=
    not_mem_of_isSimpleName (legal.qualifier qualifier qualified) (by decide)
  have written : (qualifier ++ ":" ++ attr.name.localName).toList =
      qualifier.toList ++ ':' :: attr.name.localName.toList := by simp
  have hasColon : qualifier.toList ++ ':' :: attr.name.localName.toList ≠ "xmlns".toList := by
    intro same
    have colon : ':' ∈ "xmlns".toList := by
      rw [← same]
      exact List.mem_append_right _ List.mem_cons_self
    exact absurd colon (by decide)
  rw [RawAttr.declaration?, Attr.declares?, Attr.raw, QName.written, qualified]
  simp only [written]
  rw [if_neg hasColon]
  by_cases declares : qualifier = "xmlns"
  · have front : qualifier.toList ++ ':' :: attr.name.localName.toList =
        "xmlns:".toList ++ attr.name.localName.toList := by rw [declares]; rfl
    rw [front, stripFront?_append, if_pos declares]
    rfl
  · rw [if_neg declares]
    cases stripped : stripFront? "xmlns:".toList
        (qualifier.toList ++ ':' :: attr.name.localName.toList) with
    | none => rfl
    | some rest => exact absurd (eq_of_stripFront?_xmlns simple stripped) declares

/-- An attribute with a legal name makes the declaration that its written form makes. -/
theorem declaration?_raw (legal : attr.name.Legal) :
    attr.raw.declaration? =
      attr.declares?.map fun declared => (declared.1.toList, declared.2.toList) := by
  cases qualified : attr.name.qualifier with
  | none => exact declaration?_raw_bare legal qualified
  | some qualifier => exact declaration?_raw_qualified legal qualified

end Declaration

theorem filterMap_declaration? {attrs : List Attr} (legal : ∀ attr ∈ attrs, attr.name.Legal) :
    (attrs.map Attr.raw).filterMap RawAttr.declaration? = spelledOut (declarations attrs) := by
  induction attrs with
  | nil => rfl
  | cons attr attrs ih =>
      rw [List.forall_mem_cons] at legal
      rw [List.map_cons, List.filterMap_cons, declaration?_raw legal.1, ih legal.2]
      cases declared : attr.declares? <;>
        simp [declarations, declared, spelledOut]

private theorem ofParts_written {name : QName} (legal : name.Legal) :
    QName.ofParts name.ns ((name.qualifier.map String.toList).map String.ofList)
      (String.ofList name.localName.toList) = name := by
  have solid : name.qualifier.filter (· ≠ "") = name.qualifier := by
    cases qualified : name.qualifier with
    | none => rfl
    | some qualifier =>
        have simple := legal.qualifier qualifier qualified
        have notEmpty : qualifier ≠ "" := by
          rintro rfl
          cases simple
        rw [Option.filter_some, if_pos (decide_eq_true notEmpty)]
  have back : (name.qualifier.map String.toList).map String.ofList = name.qualifier := by
    simp [Function.comp_def]
  rw [QName.ofParts, back, solid, String.ofList_toList]

section InScope

variable {scopes : List Declarations} {scope : Scope} {name : QName}

/-- A written element name is read back in its scope. -/
theorem elementName_written (legal : name.Legal) (inScope : scopes.flatten = spelledOut scope)
    (nameIn : name.IsElementIn scope) : elementName scopes name.written.toList = name := by
  have resolved : resolveQualifier scopes ((name.qualifier.map String.toList).getD []) =
      name.ns := by
    rw [nameIn, ← resolveQualifier_spelledOut inScope]
    cases name.qualifier <;> rfl
  rw [elementName, splitName_written legal]
  simp only [resolved]
  exact ofParts_written legal

/-- A written attribute name is read back in its scope. -/
theorem attrName_written (legal : name.Legal) (inScope : scopes.flatten = spelledOut scope)
    (nameIn : name.IsAttrIn scope) : attrName scopes name.written.toList = name := by
  have plain := ofParts_written legal
  rw [nameIn] at plain
  rw [attrName, splitName_written legal]
  cases qualified : name.qualifier with
  | none =>
      simp only [qualified] at plain
      simp only [Option.map_none, String.toList_inj]
      exact plain
  | some qualifier =>
      simp only [qualified, ← resolveQualifier_spelledOut inScope] at plain
      simp only [Option.map_some, String.toList_inj]
      exact plain

/-- In one scope the way in which legal attribute names are written tells them apart. -/
theorem nodup_keys {attrs : List Attr} (legal : ∀ attr ∈ attrs, attr.name.Legal)
    (attrsIn : ∀ attr ∈ attrs, attr.name.IsAttrIn scope)
    (distinct : (attrs.map (·.name)).Nodup) :
    (attrs.map Attr.raw |>.map RawAttr.key).Nodup := by
  rw [List.map_map]
  rw [List.Nodup, List.pairwise_map] at distinct ⊢
  apply distinct.imp_of_mem
  intro attr other member member' apart same
  apply apart
  have parts := written_inj (legal attr member) (legal other member') same
  have ns : attr.name.ns = other.name.ns := by
    rw [attrsIn attr member, attrsIn other member', parts.1, parts.2]
  exact QName.eq_of_parts ns parts.1 parts.2

end InScope

end Markup

end TemplateFill
