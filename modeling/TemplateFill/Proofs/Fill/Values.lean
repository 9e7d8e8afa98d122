import TemplateFill.Proofs.Markup.Respelled
import TemplateFill.Values

/-!
# Values are read back

Values can be put into a document without namespaces, at any depth and whatever they consist of.
When it has been written and is read, its entries are the ones that have been put there.  Of
several entries for one bookmark the first counts, and a template takes those for its own bookmarks.
-/

namespace TemplateFill

open Markup

/-! ## The first entry for a bookmark -/

/-- The entries whose bookmark no earlier one has. -/
def firstOfEach (entries : List Entry) : List Entry :=
  (entries.zipIdx.filter fun place =>
    place.1.1 ∉ (entries.take place.2).map (·.1)).map (·.1)

section First

variable {known bookmarks : List String} {entries : List Entry} {bookmark : String}

/-- The entries behind others, if the known bookmarks are those of the others. -/
private theorem firstEntries_eq_filter {front : List Entry}
    (passed : ∀ bookmark, bookmark ∈ known ↔ bookmark ∈ front.map (·.1)) :
    firstEntries known entries =
      ((entries.zipIdx front.length).filter fun place =>
        place.1.1 ∉ ((front ++ entries).take place.2).map (·.1)).map (·.1) := by
  induction entries generalizing front known with
  | nil => rfl
  | cons entry rest ih =>
      have whole : front ++ entry :: rest = (front ++ [entry]) ++ rest :=
        List.append_cons front entry rest
      have count : front.length + 1 = (front ++ [entry]).length := by
        rw [List.length_append, List.length_singleton]
      have names : (front ++ [entry]).map (·.1) = front.map (·.1) ++ [entry.1] := List.map_append
      rw [firstEntries, List.zipIdx_cons, List.filter_cons, List.take_left' rfl, whole, count]
      by_cases void : entry.1 ∈ known
      · have passedAll : ∀ bookmark, bookmark ∈ known ↔
            bookmark ∈ (front ++ [entry]).map (·.1) := by
          intro bookmark
          rw [names, List.mem_append, ← passed, List.mem_singleton]
          exact ⟨.inl, fun either => either.elim id fun same => same ▸ void⟩
        rw [if_pos (List.contains_iff_mem.2 void), ih passedAll, if_neg]
        simpa using (passed entry.1).1 void
      · have passedAll : ∀ bookmark, bookmark ∈ entry.1 :: known ↔
            bookmark ∈ (front ++ [entry]).map (·.1) := by
          intro bookmark
          rw [names, List.mem_append, ← passed, List.mem_singleton, List.mem_cons, or_comm]
        rw [if_neg (mt List.contains_iff_mem.1 void), ih passedAll, if_pos, List.map_cons]
        exact decide_eq_true (mt (passed entry.1).2 void)

theorem firstEntries_nil (entries : List Entry) :
    firstEntries [] entries = firstOfEach entries := by
  have passed : ∀ bookmark, bookmark ∈ ([] : List String) ↔
      bookmark ∈ ([] : List Entry).map (·.1) := fun _ => Iff.rfl
  exact firstEntries_eq_filter passed

theorem lookup_firstEntries (bookmark : String) :
    (firstEntries known entries).lookup bookmark =
      if bookmark ∈ known then none else entries.lookup bookmark := by
  induction entries generalizing known with
  | nil => simp [firstEntries]
  | cons entry rest ih =>
      rw [firstEntries]
      by_cases void : entry.1 ∈ known
      · rw [if_pos (List.contains_iff_mem.2 void), ih]
        split
        · rfl
        · rename_i unknown
          have other : (bookmark == entry.1) = false :=
            beq_false_of_ne fun same => unknown (same ▸ void)
          rw [List.lookup_cons, other]
      · rw [if_neg (mt List.contains_iff_mem.1 void), List.lookup_cons, List.lookup_cons, ih]
        by_cases same : bookmark = entry.1
        · rw [same, beq_self_eq_true, if_neg void]
        · rw [beq_false_of_ne same]
          simp [same]

theorem nodup_firstEntries : ((firstEntries known entries).map (·.1)).Nodup := by
  induction entries generalizing known with
  | nil => exact List.nodup_nil
  | cons entry rest ih =>
      rw [firstEntries]
      split
      · exact ih
      · rw [List.map_cons, List.nodup_cons]
        refine ⟨fun later => ?_, ih⟩
        -- A later entry for this bookmark would be found.
        have nothing : (firstEntries (entry.1 :: known) rest).lookup entry.1 = none := by
          rw [lookup_firstEntries, if_pos List.mem_cons_self]
        rcases List.mem_map.1 later with ⟨other, member, same⟩
        have apart := List.lookup_eq_none_iff.1 nothing other member
        simp [same] at apart

namespace Values

theorem nodup_names_ofEntries (distinct : (entries.map (·.1)).Nodup) :
    (ofEntries bookmarks entries).names.Nodup :=
  distinct.sublist (List.filter_sublist.map _)

theorem get?_ofEntries :
    (ofEntries bookmarks entries).get? bookmark =
      if bookmark ∈ bookmarks then entries.lookup bookmark else none := by
  rw [get?, ofEntries]
  induction entries with
  | nil => simp
  | cons entry rest ih =>
      rw [List.filter_cons, List.lookup_cons]
      by_cases kept : entry.1 ∈ bookmarks
      · rw [if_pos (List.contains_iff_mem.2 kept), List.lookup_cons, ih]
        by_cases same : bookmark = entry.1
        · rw [same, beq_self_eq_true]
          exact (if_pos kept).symm
        · rw [beq_false_of_ne same]
      · rw [if_neg (mt List.contains_iff_mem.1 kept), ih]
        by_cases same : bookmark = entry.1
        · rw [same, if_neg kept, if_neg kept]
        · rw [beq_false_of_ne same]

end Values

end First

/-! ## Documents that hold values -/

/-- The names of a label have no namespace and no qualifier. -/
def Label.Plain : Label → Prop
  | .element name attrs =>
      name = .plain name.localName ∧ ∀ attr ∈ attrs, attr.name = .plain attr.name.localName
  | _ => True

instance : DecidablePred Label.Plain
  | .element name attrs =>
      inferInstanceAs (Decidable (name = .plain name.localName ∧
        ∀ attr ∈ attrs, attr.name = .plain attr.name.localName))
  | .text _ | .comment _ => .isTrue trivial

/-- The name of the bookmark that an element called `bookmark` is for. -/
def Label.bookmark? : Label → Option String
  | .element name attrs =>
      if name.localName = "bookmark" then
        (attrs.find? fun attr => attr.name.localName == "name").map (·.value)
      else none
  | _ => none

namespace Node

/-- The children of an element that holds a value: the value as a text, unless it is empty. -/
def valueNodes (value : String) : List Node := if value = "" then [] else [.text value]

/-- A bookmark element that holds an entry. -/
def Holds (node : Node) (entry : Entry) : Prop :=
  ∃ attrs, ⟨.plain "name", entry.1⟩ ∈ attrs ∧
    node = .element (.plain "bookmark") attrs (valueNodes entry.2)

/-- The entries of a tree, also those that do not count. -/
def allEntries (node : Node) : List Entry := node.selfAndDescendants.filterMap entry?

end Node

/-- A document without namespaces that can be written and holds entries, in document order; it may
have any other nodes around them. -/
structure HoldsAll (root : Node) (entries : List Entry) : Prop where
  isElement : root.isElement = true
  plain : Node.EveryLabel Label.Plain root
  writable : Node.EveryLabel Label.Writable root
  distinct : Node.EveryLabel Label.DistinctAttrs root
  holds : List.Forall₂ Node.Holds
    (root.selfAndDescendants.filter (·.label.bookmark?.isSome)) entries

namespace Label

variable {label : Label} {scope : Scope}

/-- A label from which an entry can be read by the local names alone. -/
private def Bare (label : Label) : Prop :=
  (∀ name ∈ label.name?, name.qualifier = none) ∧
    ∀ attr ∈ label.attrs, attr.name.localName = "name" → attr.name.ns = none

private theorem Plain.bare (plain : label.Plain) : label.Bare := by
  cases label with
  | element name attrs =>
      refine ⟨?_, fun attr member _ => ?_⟩
      · rintro _ ⟨⟩
        rw [plain.1]
        rfl
      · rw [plain.2 attr member]
        rfl
  | text | comment => exact ⟨nofun, nofun⟩

/-- Reading puts names of elements and declarations into a namespace, but no attribute `name`. -/
private theorem Plain.bare_respelled (plain : label.Plain) : (label.respelled scope).Bare := by
  cases label with
  | element name attrs =>
      refine ⟨?_, List.forall_mem_map.2 fun attr member isName => ?_⟩
      · rintro _ ⟨⟩
        rw [plain.1]
        rfl
      · have isName : attr.name.localName = "name" := isName
        rw [Attr.respelled, plain.2 attr member, isName]
        rfl
  | text | comment => exact plain.bare

private theorem bookmark?_respelled : (label.respelled scope).bookmark? = label.bookmark? := by
  cases label with
  | element name attrs =>
      rw [respelled, bookmark?, bookmark?, List.find?_map, Option.map_map]
      rfl
  | text | comment => rfl

end Label

namespace Node

variable {node root : Node} {entry : Entry} {entries : List Entry} {scope : Scope}

private theorem entry?_of_bare (bare : node.label.Bare) :
    node.entry? = node.label.bookmark?.map fun bookmark =>
      (bookmark, String.join (node.children.filterMap text?)) := by
  cases node with
  | element name attrs children =>
      have unqualified : name.qualifier = none := bare.1 name rfl
      have found : plainAttrValue? attrs "name" =
          (attrs.find? fun attr => attr.name.localName == "name").map (·.value) := by
        rw [plainAttrValue?, ← List.head?_filter, ← List.head?_filter]
        congr 2
        refine List.filter_congr fun attr member => ?_
        by_cases isName : attr.name.localName = "name"
        · rw [bare.2 attr member isName]
          rfl
        · rw [beq_false_of_ne isName, Bool.and_false]
      have named : (element name attrs children).name?.any
          (fun name => name.qualifier.isNone && name.localName == "bookmark") =
            (name.localName == "bookmark") := by
        show (name.qualifier.isNone && name.localName == "bookmark") = _
        rw [unqualified]
        rfl
      unfold entry?
      rw [named, label_element, Label.bookmark?]
      by_cases isBookmark : name.localName = "bookmark"
      · rw [if_pos (beq_iff_eq.2 isBookmark), if_pos isBookmark, ← found]
        rfl
      · rw [if_neg (mt beq_iff_eq.1 isBookmark), if_neg isBookmark, Option.map_none]
  | text | comment => rfl

/-! ### What is read -/

theorem isElement_respelled (node : Node) : (node.respelled scope).isElement = node.isElement := by
  cases node <;> rfl

private theorem label_respelled (scope : Scope) (node : Node) :
    ∃ inner, (node.respelled scope).label = node.label.respelled inner := by
  cases node with
  | element name attrs children => exact ⟨declarations attrs ++ scope, rfl⟩
  | text | comment => exact ⟨scope, rfl⟩

private theorem children_read_valueNodes {name : QName} {attrs : List Attr} (value : String) :
    ((element name attrs (valueNodes value)).respelled scope).reread.children =
      valueNodes value := by
  rw [respelled_element, reread_element, children_element, valueNodes]
  by_cases empty : value = ""
  · rw [if_pos empty]
    rfl
  · have single : rereadAll [] [text value] = [text value] := if_neg empty
    have same : [text value].map (respelled (declarations attrs ++ scope)) = [text value] := rfl
    rw [if_neg empty, same, single]
    rfl

/-- A node of the document gives the same entry when it has been read. -/
private theorem entry?_read (plain : node.label.Plain)
    (held : node.label.bookmark?.isSome = true → ∃ value, node.children = valueNodes value) :
    entry? (node.respelled scope).reread = node.entry? := by
  rcases label_respelled scope node with ⟨inner, label⟩
  have read : (node.respelled scope).reread.label = node.label.respelled inner := by
    rw [label_reread, label]
  rw [entry?_of_bare plain.bare, entry?_of_bare (read ▸ plain.bare_respelled), read,
    Label.bookmark?_respelled]
  cases found : node.label.bookmark? with
  | none => rfl
  | some bookmark =>
      rcases held (Option.isSome_of_eq_some found) with ⟨value, children⟩
      cases node with
      | element name attrs below =>
          obtain rfl : below = valueNodes value := children
          rw [children_read_valueNodes, children_element]
      | text | comment => cases found

theorem allEntries_eq (node : Node) :
    node.allEntries =
      node.entry?.toList ++ (node.children.filter isElement).flatMap allEntries := by
  have elements : ∀ node : Node,
      node.allEntries = (node.selfAndDescendants.filter isElement).filterMap entry? := by
    intro node
    rw [allEntries, List.filterMap_filter]
    refine List.filterMap_congr fun inner _ => ?_
    cases inner with
    | element => rfl
    | text | comment => rfl
  cases node with
  | element name attrs children =>
      rw [elements, filter_selfAndDescendants_element, List.filterMap_cons, List.filterMap_flatMap,
        children_element, funext elements]
      cases entry? (element name attrs children) <;> rfl
  | text | comment => rfl

/-- If reading keeps the entry of every node, it keeps the entries of the tree. -/
private theorem allEntries_read (keeps : ∀ inner ∈ node.selfAndDescendants, ∀ scope,
    entry? (inner.respelled scope).reread = inner.entry?) :
    (node.respelled scope).reread.allEntries = node.allEntries := by
  induction node using treeInduction generalizing scope with
  | element name attrs children ih =>
      have top := keeps _ (self_mem_selfAndDescendants _) scope
      rw [allEntries_eq, allEntries_eq (element name attrs children), top, filter_children_reread,
        respelled_element, children_element, children_element, List.filter_map, List.map_map,
        List.flatMap_map]
      have same : isElement ∘ respelled (declarations attrs ++ scope) = isElement :=
        funext isElement_respelled
      rw [same]
      congr 1
      refine List.flatMap_congr fun child member => ?_
      have isChild := (List.mem_filter.1 member).1
      exact ih child isChild fun inner below =>
        keeps inner (mem_selfAndDescendants_element.2 (.inr ⟨child, isChild, below⟩))
  | text | comment => rfl

end Node

namespace HoldsAll

variable {root inner : Node} {entries : List Entry} {scope : Scope}

/-- Elements without namespaces are told apart from their attributes by local names. -/
private theorem bookmark?_of_holds {node : Node} {entry : Entry} (holds : node.Holds entry)
    (plain : node.label.Plain) (distinct : node.label.DistinctAttrs) :
    node.label.bookmark? = some entry.1 := by
  rcases holds with ⟨attrs, member, rfl⟩
  have found : (attrs.find? fun attr => attr.name.localName == "name") =
      some ⟨.plain "name", entry.1⟩ := by
    cases first : attrs.find? fun attr => attr.name.localName == "name" with
    | none => exact absurd rfl (List.find?_eq_none.1 first _ member)
    | some attr =>
        have among := List.mem_of_find?_eq_some first
        have isName : (attr.name.localName == "name") = true :=
          List.find?_some (p := fun attr : Attr => attr.name.localName == "name") first
        have same : attr.name = .plain "name" := by
          rw [plain.2 attr among, beq_iff_eq.1 isName]
        rw [List.inj_on_of_nodup_map distinct among member same]
  have called : (QName.plain "bookmark").localName = "bookmark" := rfl
  rw [Node.label_element, Label.bookmark?, if_pos called, found, Option.map_some]

/-- Each bookmark element gives the entry that it holds. -/
private theorem entry?_of_holds {node : Node} {entry : Entry} (holds : node.Holds entry)
    (plain : node.label.Plain) (distinct : node.label.DistinctAttrs) :
    node.entry? = some entry := by
  have bookmark := bookmark?_of_holds holds plain distinct
  rcases holds with ⟨attrs, _, rfl⟩
  have content : String.join ((Node.valueNodes entry.2).filterMap Node.text?) = entry.2 := by
    rw [Node.valueNodes]
    split
    · rename_i empty
      exact empty.symm
    · exact String.empty_append
  rw [Node.entry?_of_bare plain.bare, bookmark, Option.map_some, Node.children_element, content]

private theorem filterMap_eq_of_forall₂ {α β : Type} {read : α → Option β} {sources : List α}
    {results : List β}
    (gives : List.Forall₂ (fun source result => read source = some result) sources results) :
    sources.filterMap read = results := by
  induction gives with
  | nil => rfl
  | cons first _ ih => rw [List.filterMap_cons_some first, ih]

theorem allEntries_eq (holdsAll : HoldsAll root entries) : root.allEntries = entries := by
  have only : root.allEntries =
      (root.selfAndDescendants.filter (·.label.bookmark?.isSome)).filterMap Node.entry? := by
    rw [Node.allEntries, List.filterMap_filter]
    refine List.filterMap_congr fun inner member => ?_
    rw [Node.entry?_of_bare (holdsAll.plain inner member).bare]
    cases inner.label.bookmark? <;> rfl
  have each : List.Forall₂ (fun inner entry => Node.entry? inner = some entry)
      (root.selfAndDescendants.filter (·.label.bookmark?.isSome)) entries := by
    have inside : ∀ inner ∈ root.selfAndDescendants.filter (·.label.bookmark?.isSome),
        inner ∈ root.selfAndDescendants := fun inner member => (List.mem_filter.1 member).1
    refine ((List.forall₂_and_left _ _).2 ⟨inside, holdsAll.holds⟩).imp ?_
    rintro inner entry ⟨member, holds⟩
    exact entry?_of_holds holds (holdsAll.plain inner member) (holdsAll.distinct inner member)
  rw [only, filterMap_eq_of_forall₂ each]

/-- A bookmark element of the document has nothing but a value below it. -/
theorem exists_valueNodes (holdsAll : HoldsAll root entries)
    (member : inner ∈ root.selfAndDescendants) (isBookmark : inner.label.bookmark?.isSome = true) :
    ∃ value, inner.children = Node.valueNodes value := by
  have each : List.Forall₂ (fun node entry =>
      (∃ value, node.children = Node.valueNodes value) ∧ Node.Holds node entry)
      (root.selfAndDescendants.filter (·.label.bookmark?.isSome)) entries := by
    refine holdsAll.holds.imp ?_
    intro node entry holds
    refine ⟨?_, holds⟩
    rcases holds with ⟨attrs, _, rfl⟩
    exact ⟨entry.2, rfl⟩
  exact ((List.forall₂_and_left _ _).1 each).1 inner (List.mem_filter.2 ⟨member, isBookmark⟩)

/-- Plain names stay apart when some of them are put into a namespace. -/
private theorem distinctAttrs_respelled {label : Label} (plain : label.Plain)
    (distinct : label.DistinctAttrs) : (label.respelled scope).DistinctAttrs := by
  cases label with
  | element name attrs =>
      have locals : ((attrs.map (·.name)).map (·.localName)).Nodup := by
        refine distinct.map_on ?_
        simp only [List.forall_mem_map]
        intro attr member other member' same
        rw [plain.2 attr member, plain.2 other member', same]
      refine List.Nodup.of_map (·.localName) ?_
      rw [List.map_map] at locals ⊢
      rw [Label.respelled, Label.attrs, List.map_map]
      exact locals
  | text | comment => exact distinct

theorem writable_respelled (holdsAll : HoldsAll root entries) :
    Writable [] (root.respelled []) := by
  have all : Node.EveryLabel
      (fun label => label.Plain ∧ label.Writable ∧ label.DistinctAttrs) root := fun inner member =>
    ⟨holdsAll.plain inner member, holdsAll.writable inner member, holdsAll.distinct inner member⟩
  refine Node.writable_respelled (Node.everyIn_of_everyLabel all ?_)
  rintro scope label ⟨plain, writable, distinct⟩
  exact ⟨Label.writable_respelled writable, distinctAttrs_respelled plain distinct⟩

theorem readText_toDocument (holdsAll : HoldsAll root entries) :
    readText root.toDocument = .ok (root.respelled []).reread := by
  have element : (root.respelled []).isElement = true := by
    rw [Node.isElement_respelled, holdsAll.isElement]
  have whole := holdsAll.writable_respelled.readText_toDocument element
  rwa [Node.toDocument, Node.write_respelled] at whole

theorem readEntries_toDocument (holdsAll : HoldsAll root entries) :
    readEntries (String.ofList root.toDocument) = .ok (firstOfEach entries) := by
  have all : (root.respelled []).reread.allEntries = entries := by
    rw [Node.allEntries_read ?_, holdsAll.allEntries_eq]
    exact fun inner member _ => Node.entry?_read (holdsAll.plain inner member)
      (holdsAll.exists_valueNodes member)
  rw [readEntries, String.toList_ofList, holdsAll.readText_toDocument, Except.map, Node.entries,
    ← Node.allEntries, all, firstEntries_nil]

end HoldsAll

/-! ## Documents for entries -/

/-- A bookmark element for an entry. -/
def bookmarkOf (entry : Entry) : Node :=
  .element (.plain "bookmark") [⟨.plain "name", entry.1⟩] (Node.valueNodes entry.2)

/-- A document with entries below its root. -/
def dataOf (entries : List Entry) : Node := .element (.plain "data") [] (entries.map bookmarkOf)

theorem holdsAll_dataOf (entries : List Entry) : HoldsAll (dataOf entries) entries := by
  have every : ∀ {property : Label → Prop}, property (.element (.plain "data") []) →
      (∀ entry : Entry, property (bookmarkOf entry).label) → (∀ value, property (.text value)) →
      Node.EveryLabel property (dataOf entries) := by
    intro property top each texts
    refine Node.everyLabel_element.2 ⟨top, List.forall_mem_map.2 fun entry _ => ?_⟩
    refine Node.everyLabel_element.2 ⟨each entry, fun child member => ?_⟩
    rw [Node.valueNodes] at member
    split at member
    · cases member
    · rw [List.mem_singleton.1 member]
      exact Node.everyLabel_text.2 (texts _)
  have legal : (QName.plain "bookmark").Legal ∧ (QName.plain "name").Legal := by decide
  have bookmarks : ((dataOf entries).selfAndDescendants.filter (·.label.bookmark?.isSome)) =
      entries.map bookmarkOf := by
    have single : ∀ entry, (bookmarkOf entry).selfAndDescendants.filter
        (·.label.bookmark?.isSome) = [bookmarkOf entry] := by
      intro entry
      rw [bookmarkOf, Node.valueNodes]
      split <;> rfl
    have below : (dataOf entries).selfAndDescendants.filter (·.label.bookmark?.isSome) =
        (Node.descendantsOfAll (entries.map bookmarkOf)).filter (·.label.bookmark?.isSome) := rfl
    rw [below, Node.descendantsOfAll_eq_flatMap, List.flatMap_map, List.filter_flatMap,
      funext single, List.map_eq_flatMap]
  constructor
  · rfl
  · exact every (by decide) (fun _ => ⟨rfl, List.forall_mem_singleton.2 rfl⟩) fun _ => trivial
  · exact every (by decide) (fun _ => ⟨legal.1, List.forall_mem_singleton.2 legal.2⟩)
      fun _ => trivial
  · exact every (by decide) (fun _ => List.nodup_singleton _) fun _ => List.nodup_nil
  · rw [bookmarks, List.forall₂_map_left_iff, List.forall₂_same]
    exact fun entry _ => ⟨_, List.mem_singleton_self _, rfl⟩

/-- Any entries can be held by a document without namespaces, and the entries that such a document
holds are read from it, the first one for each bookmark, in their order.  A template gets those for
its own bookmarks and finds the first value for each of them. -/
theorem values_readBack :
    (∀ entries, ∃ root, HoldsAll root entries) ∧
    ∀ root entries, HoldsAll root entries →
      ∃ text, Utf8.decode root.toBytes = .ok text ∧
        readEntries (String.ofList text) = .ok (firstOfEach entries) ∧
        ∀ bookmarks, ∃ values, Values.read bookmarks (String.ofList text) = .ok values ∧
          values.entries = (firstOfEach entries).filter (fun entry => entry.1 ∈ bookmarks) ∧
          values.names.Nodup ∧
          ∀ bookmark, values.get? bookmark =
            if bookmark ∈ bookmarks then entries.lookup bookmark else none := by
  refine ⟨fun entries => ⟨_, holdsAll_dataOf entries⟩, fun root entries holdsAll => ?_⟩
  have read := holdsAll.readEntries_toDocument
  refine ⟨root.toDocument, Utf8.decode_encode _, read, fun bookmarks => ?_⟩
  refine ⟨.ofEntries bookmarks (firstOfEach entries), ?_, ?_, ?_, fun bookmark => ?_⟩
  · rw [Values.read, read]
    rfl
  · exact List.filter_congr fun entry _ => List.contains_eq_mem ..
  · rw [← firstEntries_nil]
    exact Values.nodup_names_ofEntries nodup_firstEntries
  · rw [Values.get?_ofEntries, ← firstEntries_nil, lookup_firstEntries,
      if_neg List.not_mem_nil]

/-- A document with values at several depths, of which the last but one is for a bookmark that has
one already: markup and line ends, a blank, and nothing. -/
def scattered : Node :=
  .element (.plain "data") []
    [.comment " values ",
      .element (.plain "group") []
        [.element (.plain "bookmark") [⟨.plain "id", "1"⟩, ⟨.plain "name", "a"⟩]
            [.text "<b>&\"\r\n"],
          .element (.plain "group") [] [bookmarkOf ("b", " ")]],
      bookmarkOf ("a", "again"), bookmarkOf ("", "")]

/-- The entries in the sample. -/
def scatteredEntries : List Entry := [("a", "<b>&\"\r\n"), ("b", " "), ("a", "again"), ("", "")]

theorem values_readBack_scattered :
    HoldsAll scattered scatteredEntries ∧
      ∃ text, Utf8.decode scattered.toBytes = .ok text ∧
        readEntries (String.ofList text) = .ok [("a", "<b>&\"\r\n"), ("b", " "), ("", "")] ∧
        ∃ values, Values.read ["c", "b"] (String.ofList text) = .ok values ∧
          values.entries = [("b", " ")] ∧ values.get? "b" = some " " ∧ values.get? "a" = none := by
  have holdsAll : HoldsAll scattered scatteredEntries := by
    constructor
    · rfl
    · exact show ∀ inner ∈ scattered.selfAndDescendants, inner.label.Plain by decide
    · exact show ∀ inner ∈ scattered.selfAndDescendants, inner.label.Writable by decide
    · exact show ∀ inner ∈ scattered.selfAndDescendants, inner.label.DistinctAttrs by decide
    · refine .cons ⟨_, .tail _ (.head _), rfl⟩ (.cons ⟨_, .head _, rfl⟩
        (.cons ⟨_, .head _, rfl⟩ (.cons ⟨_, .head _, rfl⟩ .nil)))
  rcases values_readBack.2 _ _ holdsAll with ⟨text, decoded, read, template⟩
  rcases template ["c", "b"] with ⟨values, valued, entries, _, get⟩
  exact ⟨holdsAll, text, decoded, read, values, valued, entries, get "b", get "a"⟩

/-- An element with two attributes of one name. -/
def twiceKeyed : Node :=
  .element (.plain "data") [⟨.plain "k", "1"⟩, ⟨.plain "k", "2"⟩] [bookmarkOf ("a", "x")]

/-- An element whose name starts with a colon. -/
def colonNamed : Node :=
  .element (.plain "data") [] [.element (.plain ":bookmark") [⟨.plain "name", "a"⟩] [.text "x"]]

/-- A comment that holds the end of a comment. -/
def endedComment : Node :=
  .element (.plain "data") [] [.comment "--><bookmark name=\"a\">x</bookmark><!--"]

/-- A document with two attributes of one name is written, but not read.  A name that starts with a
colon is read without it, and what stands behind the end of a comment is read as markup, so there
are entries that the document does not hold. -/
theorem not_values_readBack :
    (Node.EveryLabel Label.Plain twiceKeyed ∧ Node.EveryLabel Label.Writable twiceKeyed ∧
      List.Forall₂ Node.Holds
        (twiceKeyed.selfAndDescendants.filter (·.label.bookmark?.isSome)) [("a", "x")] ∧
      readEntries (String.ofList twiceKeyed.toDocument) ≠ .ok (firstOfEach [("a", "x")])) ∧
    ∀ root ∈ [colonNamed, endedComment],
      Node.EveryLabel Label.Plain root ∧ Node.EveryLabel Label.DistinctAttrs root ∧
      List.Forall₂ Node.Holds (root.selfAndDescendants.filter (·.label.bookmark?.isSome)) [] ∧
      readEntries (String.ofList root.toDocument) = .ok [("a", "x")] := by
  constructor
  · have refused : readEntries (String.ofList twiceKeyed.toDocument) ≠
        .ok (firstOfEach [("a", "x")]) := by
      decide +kernel
    refine ⟨?_, ?_, .cons ⟨_, .head _, rfl⟩ .nil, refused⟩
    · exact show ∀ inner ∈ twiceKeyed.selfAndDescendants, inner.label.Plain by decide
    · exact show ∀ inner ∈ twiceKeyed.selfAndDescendants, inner.label.Writable by decide
  · rw [List.forall_mem_cons, List.forall_mem_singleton]
    refine ⟨⟨?_, ?_, .nil, by decide +kernel⟩, ?_, ?_, .nil, by decide +kernel⟩
    · exact show ∀ inner ∈ colonNamed.selfAndDescendants, inner.label.Plain by decide
    · exact show ∀ inner ∈ colonNamed.selfAndDescendants, inner.label.DistinctAttrs by decide
    · exact show ∀ inner ∈ endedComment.selfAndDescendants, inner.label.Plain by decide
    · exact show ∀ inner ∈ endedComment.selfAndDescendants, inner.label.DistinctAttrs by decide

end TemplateFill
