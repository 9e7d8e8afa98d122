import TemplateFill.Package.ContentTypes
import TemplateFill.Package.Relationship
import TemplateFill.Proofs.Markup.Canonical
import TemplateFill.Proofs.Markup.Spelling
import TemplateFill.Proofs.Package.Growth

/-!
# Parts that list entries

Relationships and content types are entries below the root of a part: elements of one namespace
whose attributes have none.  A part whose root is in this namespace takes one entry more, and
what is read of it after storing are the entries that were there and the new one.
-/

namespace TemplateFill

open Markup Node Text

/-- A part for entries of a namespace: its root is in this namespace, and what is written of it is
read back with the same elements. -/
structure ListsIn (ns : String) (root : Node) : Prop where
  writable : Writable [] root
  named : ∃ name ∈ root.name?, name.ns = some ns
  reserved : NoReserved root.attrs
  only : OnlyDeclarations root.attrs

/-- Names of attributes that have no namespace and declare none. -/
structure ArePlain (names : List QName) : Prop where
  plain : ∀ name ∈ names, name = .plain name.localName
  legal : ∀ name ∈ names, isSimpleName name.localName.toList = true
  noDeclaration : ∀ name ∈ names, name.localName ≠ "xmlns"
  distinct : names.Nodup

instance : DecidablePred ArePlain := fun names =>
  decidable_of_iff
    ((∀ name ∈ names, name = .plain name.localName) ∧
      (∀ name ∈ names, isSimpleName name.localName.toList = true) ∧
      (∀ name ∈ names, name.localName ≠ "xmlns") ∧ names.Nodup)
    ⟨fun all => ⟨all.1, all.2.1, all.2.2.1, all.2.2.2⟩,
      fun plain => ⟨plain.plain, plain.legal, plain.noDeclaration, plain.distinct⟩⟩

/-! ## Entries -/

/-- An entry can be written wherever its own name can. -/
theorem ArePlain.writable {attrs : List Attr} (arePlain : ArePlain (attrs.map (·.name)))
    {scope : Scope} {name : QName} (legal : name.Legal) (nameIn : name.IsElementIn scope) :
    Writable scope (.element name attrs []) := by
  have each : ∀ attr ∈ attrs, attr.name = .plain attr.name.localName ∧
      attr.name.qualifier = none ∧ attr.name.localName ≠ "xmlns" := by
    intro attr member
    have among : attr.name ∈ attrs.map (·.name) := List.mem_map_of_mem member
    refine ⟨arePlain.plain _ among, ?_, arePlain.noDeclaration _ among⟩
    rw [arePlain.plain _ among]
    rfl
  have nothing : declarations attrs = [] := by
    rw [declarations, List.filterMap_eq_nil_iff]
    intro attr member
    rcases each attr member with ⟨_, bare, other⟩
    rw [Attr.declares?, bare]
    exact if_neg other
  constructor
  · refine everyLabel_element.2 ⟨⟨legal, ?_⟩, List.forall_mem_nil _⟩
    intro attr member
    refine ⟨arePlain.legal _ (List.mem_map_of_mem member), ?_⟩
    intro qualifier qualified
    rw [(each attr member).2.1] at qualified
    cases qualified
  · exact everyLabel_element.2 ⟨arePlain.distinct, List.forall_mem_nil _⟩
  · refine .element ?_ ?_ (List.forall_mem_nil _)
    · rw [nothing]
      exact nameIn
    · intro attr member
      rcases each attr member with ⟨plain, _, other⟩
      rw [plain]
      exact (if_neg other).symm

namespace ListsIn

variable {ns : String} {root : Node} {term : Term} {attrs : List Attr}

theorem isElement (lists : ListsIn ns root) : root.isElement = true := by
  rcases lists.named with ⟨name, isName, _⟩
  exact Option.isSome_iff_exists.2 ⟨name, isName⟩

theorem reread (lists : ListsIn ns root) : ListsIn ns root.reread := by
  constructor
  · exact lists.writable.reread
  · rw [name?_reread]
    exact lists.named
  · rw [attrs_reread]
    exact lists.reserved
  · rw [attrs_reread]
    exact lists.only

theorem readBytes_eq_reread (lists : ListsIn ns root) : readBytes root.toBytes = .ok root.reread :=
  lists.writable.readBytes_eq_reread lists.isElement

/-- An entry can be added, while others go. -/
theorem add (lists : ListsIn ns root) (isNs : term.ns = ns) (notXml : term.ns ≠ Namespace.xml)
    (filled : term.ns ≠ "") (simple : isSimpleName term.localName.toList = true)
    (arePlain : ArePlain (attrs.map (·.name))) {change : List Node → List Node}
    (each : ∀ child ∈ change root.children, child ∈ root.children ∨
      child = .element (root.spell term) attrs []) :
    ListsIn ns (root.mapChildren change) := by
  cases root with
  | text | comment => cases lists.isElement
  | element name rootAttrs children =>
      have declaring := lists.writable.declaring lists.only
      have declares : Declares rootAttrs term.ns := by
        rcases lists.named with ⟨inner, isName, named⟩
        cases isName
        cases lists.writable.inScope with
        | element nameIn =>
            rw [List.append_nil] at nameIn
            rw [isNs] at notXml ⊢
            exact declares_of_ns nameIn named notXml
      rcases declaring.spelled_element declares notXml lists.reserved.noXml filled simple with
        ⟨legal, nameIn⟩
      refine ⟨lists.writable.withChildren ?_, lists.named, lists.reserved, lists.only⟩
      intro child member
      rw [List.append_nil]
      rcases each child member with old | rfl
      · have known := lists.writable.child old
        rw [List.append_nil] at known
        exact known
      · exact arePlain.writable legal nameIn

end ListsIn

/-! ## Relationships -/

namespace Relationship

variable {root : Node}

private theorem allOf_eq (root : Node) :
    allOf root = root.children.filterMap fun node =>
      if node.denotes Term.relationship then ofNode? node else none :=
  List.filterMap_filter

/-- Reading what has been stored finds the same relationships. -/
theorem allOf_reread (root : Node) : allOf root.reread = allOf root := by
  rw [allOf_eq, allOf_eq]
  apply filterMap_children_reread
  · intro node
    have entry : ofNode? node.reread = ofNode? node := by
      simp only [ofNode?, plainAttr?, attrs_reread]
    rw [entry, Node.denotes, Node.denotes, name?_reread]
  · intro node other
    cases node with
    | element => cases other
    | text | comment => rfl

theorem allOf_appendTo (element : root.isElement = true) (relationship : Relationship) :
    allOf (appendTo root relationship) = allOf root ++ [relationship] := by
  cases root with
  | text | comment => cases element
  | element name attrs children =>
      have denotes : (Node.element ((Node.element name attrs children).spell Term.relationship)
          relationship.attrs []).denotes Term.relationship = true :=
        QName.denotes_iff.2 (⟨rfl, rfl⟩ : (Term.relationship.spelled attrs).ns = _ ∧ _)
      rw [allOf_eq, allOf_eq, appendTo, mapChildren, children_element, children_element,
        List.filterMap_append, List.filterMap_cons_some, List.filterMap_nil]
      rw [if_pos denotes, ofNode?_element]

/-- A relationship that has been added is read again behind the others. -/
theorem allOf_reread_appendTo (element : root.isElement = true) (relationship : Relationship) :
    allOf (appendTo root relationship).reread = allOf root ++ [relationship] := by
  rw [allOf_reread, allOf_appendTo element]

theorem arePlain_attrs (relationship : Relationship) :
    ArePlain (relationship.attrs.map (·.name)) := by
  rcases relationship with ⟨id, type, target, external⟩
  cases external with
  | true => exact (by decide : ArePlain (["Id", "Type", "Target", "TargetMode"].map QName.plain))
  | false => exact (by decide : ArePlain (["Id", "Type", "Target"].map QName.plain))

end Relationship

namespace ListsIn

variable {root : Node}

/-- A part of relationships takes one more. -/
theorem appendTo (lists : ListsIn Namespace.packageRelationships root)
    (relationship : Relationship) :
    ListsIn Namespace.packageRelationships (Relationship.appendTo root relationship) := by
  refine lists.add rfl (by decide : Term.relationship.ns ≠ Namespace.xml) (by decide) (by decide)
    (Relationship.arePlain_attrs relationship) ?_
  intro child member
  rcases List.mem_append.1 member with old | new
  · exact .inl old
  · exact .inr (List.mem_singleton.1 new)

theorem emptyPart : ListsIn Namespace.packageRelationships Relationship.emptyPart := by
  refine ⟨⟨by decide, by decide, ?_⟩, ⟨_, rfl, rfl⟩, by decide, by decide⟩
  exact .element (by decide) (by decide) (List.forall_mem_nil _)

end ListsIn

/-! ## Content types -/

namespace ContentTypes

variable {types : Node} {part name type : String}

/-- The entries of a list of content types: all elements below its root are in its namespace. -/
def EntriesIn (types : Node) : Prop :=
  ∀ child ∈ types.children, ∀ name ∈ child.name?, name.ns = some Namespace.contentTypes

/-- The content type that a node gives as an entry for a key. -/
def givenType? (localName key value : String) (node : Node) : Option String :=
  if isEntry localName key value node then node.plainAttr? "ContentType" else none

private theorem entryType?_eq (types : Node) (localName key value : String) :
    entryType? types localName key value =
      (types.children.filterMap (givenType? localName key value)).head? :=
  List.head?_filterMap.symm

private theorem isEntry_of_not_element {localName key value : String} {node : Node}
    (other : node.isElement = false) : isEntry localName key value node = false := by
  cases node with
  | element => cases other
  | text | comment => rfl

private theorem entryType?_reread (types : Node) (localName key value : String) :
    entryType? types.reread localName key value = entryType? types localName key value := by
  rw [entryType?_eq, entryType?_eq]
  refine congrArg List.head? (filterMap_children_reread ?_ ?_ types)
  · intro node
    have entry : isEntry localName key value node.reread = isEntry localName key value node := by
      rw [isEntry, isEntry, plainAttr?, plainAttr?, name?_reread, attrs_reread]
    rw [givenType?, givenType?, entry, plainAttr?, plainAttr?, attrs_reread]
  · intro node other
    rw [givenType?, isEntry_of_not_element other]
    rfl

/-- Reading what has been stored finds the same content types. -/
theorem type?_reread (types : Node) (part : String) :
    type? types.reread part = type? types part := by
  simp only [type?, entryType?_reread]

theorem EntriesIn.reread (entries : EntriesIn types) : EntriesIn types.reread := by
  intro child member name isName
  rcases mem_children_reread member with ⟨content, rfl⟩ | ⟨source, among, rfl⟩
  · cases isName
  · rw [name?_reread] at isName
    exact entries source among name isName

/-! ### Overrides -/

/-- The override for a part. -/
def overrideFor (types : Node) (part type : String) : Node :=
  .element (types.spell Term.override)
    [⟨.plain "PartName", listedName part⟩, ⟨.plain "ContentType", type⟩] []

theorem children_setOverride (element : types.isElement = true) (part type : String) :
    (setOverride types part type).children =
      types.children.filter (!overrides part ·) ++ [overrideFor types part type] := by
  cases types with
  | element => rfl
  | text | comment => cases element

theorem sameButCase_listedName (part name : String) :
    sameButCase (listedName part) (listedName name) =
      sameButCase (PartName.bare part) (PartName.bare name) := by
  have lower : ∀ part, foldCase (listedName part) = '/' :: foldCase (PartName.bare part) := by
    intro part
    rw [foldCase, listedName, String.toList_append, List.map_append]
    rfl
  rw [Bool.eq_iff_iff, sameButCase_iff, sameButCase_iff, lower, lower, List.cons_inj_right]

/-- The overrides of a part are the entries for it with the full name of overrides. -/
private theorem overrides_eq (part : String) (node : Node) :
    overrides part node =
      (node.denotes Term.override && isEntry "Override" "PartName" (listedName part) node) := by
  cases denotes : node.denotes Term.override with
  | false => rw [overrides, denotes, Bool.false_and, Bool.false_and]
  | true =>
      have called : node.name?.any (·.localName == "Override") = true := by
        rw [Node.denotes, Option.any_eq_true] at denotes
        rcases denotes with ⟨name, isName, isOverride⟩
        rw [isName, Option.any_some, (QName.denotes_iff.1 isOverride).2]
        rfl
      rw [overrides, isEntry, denotes, called, Bool.true_and, Bool.true_and]

/-- An entry for one spelling of a part is one for all. -/
private theorem givenType?_congr
    (same : sameButCase (PartName.bare part) (PartName.bare name) = true) :
    givenType? "Override" "PartName" (listedName part) =
      givenType? "Override" "PartName" (listedName name) := by
  have listed : ∀ given,
      sameButCase given (listedName part) = sameButCase given (listedName name) := by
    rw [← sameButCase_listedName, sameButCase_iff] at same
    intro given
    rw [sameButCase, sameButCase, same]
  funext node
  have entry : isEntry "Override" "PartName" (listedName part) node =
      isEntry "Override" "PartName" (listedName name) node := by
    rw [isEntry, isEntry, funext listed]
  rw [givenType?, givenType?, entry]

/-- The content types that overrides give a part, in document order; the first of them counts. -/
def overrideTypes (types : Node) (part : String) : List String :=
  types.children.filterMap (givenType? "Override" "PartName" (listedName part))

/-- Those of them that overrides of another namespace give. -/
def strayTypes (types : Node) (part : String) : List String :=
  (types.children.filter (!·.denotes Term.override)).filterMap
    (givenType? "Override" "PartName" (listedName part))

theorem strayTypes_congr (same : sameButCase (PartName.bare part) (PartName.bare name) = true) :
    strayTypes types part = strayTypes types name := by
  rw [strayTypes, strayTypes, givenType?_congr same]

theorem EntriesIn.strayTypes_eq_nil (entries : EntriesIn types) (part : String) :
    strayTypes types part = [] := by
  rw [strayTypes, List.filterMap_eq_nil_iff]
  intro child member
  rcases List.mem_filter.1 member with ⟨among, stray⟩
  refine if_neg fun entry => ?_
  rw [isEntry, Bool.and_eq_true, Option.any_eq_true] at entry
  rcases entry.1 with ⟨inner, isName, called⟩
  have denotes : child.denotes Term.override = true := by
    rw [Node.denotes, isName]
    exact QName.denotes_iff.2 ⟨entries child among inner isName, beq_iff_eq.1 called⟩
  rw [denotes] at stray
  cases stray

/-- Setting an override replaces none but the overrides of the part. -/
private theorem filterMap_setOverride {localName key value : String}
    (element : types.isElement = true)
    (dropped : ∀ child ∈ types.children, overrides part child = true →
      isEntry localName key value child = false)
    (other : isEntry localName key value (overrideFor types part type) = false) :
    (setOverride types part type).children.filterMap (givenType? localName key value) =
      types.children.filterMap (givenType? localName key value) := by
  have new : givenType? localName key value (overrideFor types part type) = none :=
    if_neg (Bool.eq_false_iff.1 other)
  rw [children_setOverride element, List.filterMap_append, List.filterMap_cons_none new,
    List.filterMap_nil, List.append_nil, List.filterMap_filter]
  refine List.filterMap_congr fun child member => ?_
  cases isOverride : overrides part child with
  | false => rfl
  | true =>
      rw [givenType?, dropped child member isOverride]
      rfl

/-- An override answers last for its part, behind those that it does not replace, and for no other
part. -/
theorem overrideTypes_setOverride (element : types.isElement = true) (part type name : String) :
    overrideTypes (setOverride types part type) name =
      if sameButCase (PartName.bare part) (PartName.bare name) then strayTypes types part ++ [type]
      else overrideTypes types name := by
  cases same : sameButCase (PartName.bare part) (PartName.bare name) with
  | true =>
      have new : givenType? "Override" "PartName" (listedName part) (overrideFor types part type) =
          some type := if_pos (sameButCase_self (listedName part))
      rw [overrideTypes, ← givenType?_congr same, children_setOverride element,
        List.filterMap_append, List.filterMap_cons_some new, List.filterMap_nil, strayTypes,
        List.filterMap_filter, List.filterMap_filter]
      refine congrArg (· ++ _) (List.filterMap_congr fun child _ => ?_)
      rw [overrides_eq]
      cases entry : isEntry "Override" "PartName" (listedName part) child with
      | false => simp [givenType?, entry]
      | true => simp [Bool.and_true]
  | false =>
      have apart : sameButCase (listedName part) (listedName name) = false := by
        rw [sameButCase_listedName, same]
      refine filterMap_setOverride element (fun child _ isOverride => ?_) apart
      rw [overrides, Bool.and_eq_true, Option.any_eq_true (sameButCase · (listedName part))]
        at isOverride
      rcases isOverride with ⟨_, listed, isListed, given⟩
      have refused : ¬ sameButCase listed (listedName name) = true := by
        intro given'
        rw [sameButCase_comm] at given
        rw [sameButCase_trans given given'] at apart
        cases apart
      rw [isEntry, isListed, Option.any_some, Bool.eq_false_iff.2 refused, Bool.and_false]

theorem strayTypes_setOverride (element : types.isElement = true) (part type name : String) :
    strayTypes (setOverride types part type) name = strayTypes types name := by
  have new : (overrideFor types part type).denotes Term.override = true :=
    QName.denotes_iff.2 (⟨rfl, rfl⟩ : (types.spell Term.override).ns = _ ∧ _)
  rw [strayTypes, strayTypes, children_setOverride element, List.filter_append, List.filter_filter,
    List.filter_cons_of_neg (by simp [new]), List.filter_nil, List.append_nil]
  refine congrArg _ (List.filter_congr fun child _ => ?_)
  rw [overrides]
  cases child.denotes Term.override <;> rfl

/-- The type of a part is the first that an override gives, or else that of its extension. -/
theorem type?_eq_overrideTypes (types : Node) (part : String) :
    type? types part = (overrideTypes types part).head?.or
      ((extension? part).bind (entryType? types "Default" "Extension")) := by
  rw [type?, entryType?_eq]
  rfl

/-- An override gives its part its content type, unless an override of another namespace comes
before it, and changes the type of no other part. -/
theorem type?_setOverride_eq (element : types.isElement = true) (part type name : String) :
    type? (setOverride types part type) name =
      if sameButCase (PartName.bare part) (PartName.bare name) then
        some ((strayTypes types part).headD type)
      else type? types name := by
  rw [type?_eq_overrideTypes, overrideTypes_setOverride element]
  split
  · cases strayTypes types part <;> rfl
  · have default : entryType? (setOverride types part type) "Default" "Extension" =
        entryType? types "Default" "Extension" := by
      funext extension
      rw [entryType?_eq, entryType?_eq]
      refine congrArg List.head? (filterMap_setOverride element (fun child _ isOverride => ?_) rfl)
      rw [overrides, Bool.and_eq_true, Node.denotes, Option.any_eq_true] at isOverride
      rcases isOverride with ⟨⟨inner, isName, isOverride⟩, _⟩
      rw [isEntry, isName, Option.any_some, (QName.denotes_iff.1 isOverride).2]
      rfl
    rw [default, type?_eq_overrideTypes]

/-- Where all entries are in their namespace, an override gives its part its content type and
changes no other. -/
theorem type?_setOverride (element : types.isElement = true) (entries : EntriesIn types)
    (part type name : String) :
    type? (setOverride types part type) name =
      if sameButCase (PartName.bare part) (PartName.bare name) then some type
      else type? types name := by
  rw [type?_setOverride_eq element, entries.strayTypes_eq_nil]
  rfl

theorem EntriesIn.setOverride (element : types.isElement = true) (entries : EntriesIn types)
    (part type : String) : EntriesIn (setOverride types part type) := by
  rw [EntriesIn, children_setOverride element]
  refine List.forall_mem_append.2 ⟨?_, List.forall_mem_singleton.2 ?_⟩
  · exact fun child member => entries child (List.mem_filter.1 member).1
  · rintro _ ⟨⟩
    rfl

end ContentTypes

/-- A list of content types takes an override. -/
theorem ListsIn.setOverride {types : Node} (lists : ListsIn Namespace.contentTypes types)
    (part type : String) :
    ListsIn Namespace.contentTypes (ContentTypes.setOverride types part type) := by
  have plain : ArePlain ((ContentTypes.overrideFor types part type).attrs.map (·.name)) :=
    (by decide : ArePlain (["PartName", "ContentType"].map QName.plain))
  refine lists.add rfl (by decide : Term.override.ns ≠ Namespace.xml) (by decide) (by decide)
    plain ?_
  intro child member
  rcases List.mem_append.1 member with old | new
  · exact .inl (List.mem_filter.1 old).1
  · exact .inr (List.mem_singleton.1 new)

end TemplateFill
