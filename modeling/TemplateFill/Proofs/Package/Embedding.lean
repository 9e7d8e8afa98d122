import TemplateFill.Package.Chunk
import TemplateFill.Proofs.Package.Edits
import TemplateFill.Proofs.Package.Host

/-!
# Embedding a value as a chunk

The first paragraph that shows a value gives way to a chunk.  The main part, its relationships, the
content types and the chunk parts fit together before and afterwards, and a value whose id is in
use leaves the package as it was.
-/

namespace TemplateFill

open Markup Node Text

/-! ## Paragraphs that show a value -/

/-- A paragraph that is a child of the body or of a table cell shows a text. -/
structure Node.ShowsAt (root : Node) (text : String) (path : Path) : Prop where
  below : path ≠ []
  paragraph : ∃ node, root.at? path = some node ∧ node.kind = .paragraph ∧ node.visibleText = text
  parent : ∃ parent, root.at? path.dropLast = some parent ∧
    (parent.kind = .body ∨ parent.kind = .tableCell)

/-- The paragraph shows the text, and no paragraph before it does. -/
structure Node.ShowsFirst (root : Node) (text : String) (path : Path) : Prop where
  shows : root.ShowsAt text path
  first : ∀ earlier < path, ¬ root.ShowsAt text earlier

section Shows

variable {root : Node} {text : String} {path : Path}

/-- Whether a position is one of a paragraph that is looked for. -/
private def accepts (root : Node) (text : String) (place : Path × Node) : Bool :=
  place.2.kind == .paragraph &&
    (root.at? place.1.dropLast).any (fun parent =>
      parent.kind == .body || parent.kind == .tableCell) &&
    place.2.visibleText == text

private theorem accepts_iff {node : Node} :
    accepts root text (path, node) = true ↔ node.kind = .paragraph ∧
      (∃ parent, root.at? path.dropLast = some parent ∧
        (parent.kind = .body ∨ parent.kind = .tableCell)) ∧ node.visibleText = text := by
  simp only [accepts, Bool.and_eq_true, beq_iff_eq, Option.any_eq_true, Bool.or_eq_true, and_assoc]

private theorem showsAt_iff :
    root.ShowsAt text path ↔
      ∃ node, (path, node) ∈ root.placed ∧ accepts root text (path, node) = true := by
  constructor
  · rintro ⟨below, ⟨node, isAt, paragraph, shows⟩, parent⟩
    exact ⟨node, mem_placed_iff.2 ⟨below, isAt⟩, accepts_iff.2 ⟨paragraph, parent, shows⟩⟩
  · rintro ⟨node, member, accepted⟩
    rcases mem_placed_iff.1 member with ⟨below, isAt⟩
    rcases accepts_iff.1 accepted with ⟨paragraph, parent, shows⟩
    exact ⟨below, ⟨node, isAt, paragraph, shows⟩, parent⟩

theorem not_showsAt_of_findShowing? (none : root.findShowing? text = none) (path : Path) :
    ¬ root.ShowsAt text path := by
  have refused : root.placed.find? (accepts root text) = Option.none :=
    Option.map_eq_none_iff.1 none
  rw [showsAt_iff]
  rintro ⟨node, member, accepted⟩
  exact List.find?_eq_none.1 refused _ member accepted

theorem showsFirst_of_findShowing? (found : root.findShowing? text = some path) :
    root.ShowsFirst text path := by
  have isPlaced : ∃ place, root.placed.find? (accepts root text) = some place ∧ place.1 = path :=
    Option.map_eq_some_iff.1 found
  rcases isPlaced with ⟨⟨path, node⟩, isFirst, rfl⟩
  rcases find?_placed_eq_some isFirst with ⟨member, accepted, before⟩
  refine ⟨showsAt_iff.2 ⟨node, member, accepted⟩, ?_⟩
  intro earlier less shows
  rcases showsAt_iff.1 shows with ⟨other, among, accepted'⟩
  rw [before (earlier, other) among less] at accepted'
  cases accepted'

/-- Only one paragraph is the first. -/
theorem Node.ShowsFirst.eq {other : Path} (first : root.ShowsFirst text path)
    (first' : root.ShowsFirst text other) : path = other := by
  have notAfter : ¬ other < path := fun less => first.first other less first'.shows
  have notBefore : ¬ path < other := fun less => first'.first path less first.shows
  exact List.le_antisymm (List.not_lt.1 notAfter) (List.not_lt.1 notBefore)

end Shows

namespace Package

/-! ## One value -/

/-- A value has been put into the main part as a chunk, which refers to a new part by a new
relationship; all other parts are as they were. -/
structure Embedded (main id value : String) (before after : Package) (part : String) : Prop where
  document : ∃ root path declared chunk, before.document main = .ok root ∧
    root.ShowsFirst value path ∧ DeclaresReferences root declared ∧ IsChunk id chunk ∧
    after.document main = .ok (declared.replaceAt path chunk)
  fresh : ∃ number, before.IsFreshChunk main part number
  content : after.get? part = some (Utf8.encode value.toList)
  relationships : ∃ known new, before.relationships main = .ok known ∧
    (∀ old ∈ known, old.id ≠ id) ∧ new.id = id ∧ new.type = Relationship.chunkType ∧
    new.part? main = some part ∧ after.relationships main = .ok (known ++ [new])
  types : ∃ listed listed', before.document ContentTypes.partName = .ok listed ∧
    after.document ContentTypes.partName = .ok listed' ∧
    ∀ name, ContentTypes.type? listed' name =
      if sameButCase (PartName.bare part) (PartName.bare name) then some ContentTypes.chunk
      else ContentTypes.type? listed name
  others : Grows [ContentTypes.partName, PartName.relationshipsOf main, main] before after
    (PartName.bare part :: if before.has (PartName.relationshipsOf main) then []
      else [PartName.bare (PartName.relationshipsOf main)])

/-- What embedding one value does to a package: nothing if no paragraph shows it, and nothing
either if the id of its relationship is in use. -/
inductive EmbedStep (main id value : String) (package : Package) :
    Except Error Bool → Package → Prop where
  | skipped {root : Node} (holds : package.document main = .ok root)
      (hidden : ∀ path, ¬ root.ShowsAt value path) :
      EmbedStep main id value package (.ok false) package
  | refused {root : Node} {path : Path} {known : List Relationship}
      (holds : package.document main = .ok root) (shows : root.ShowsFirst value path)
      (isKnown : package.relationships main = .ok known) (inUse : ∃ old ∈ known, old.id = id) :
      EmbedStep main id value package (.error (.relationshipInUse id)) package
  | embedded {after : Package} {part : String}
      (embedded : Embedded main id value package after part) :
      EmbedStep main id value package (.ok true) after

/-- The main part of a package takes chunks. -/
def HostsIn (main : String) (package : Package) : Prop :=
  ∃ root, package.document main = .ok root ∧ HostsChunks root

/-- A package whose main part takes chunks, and whose relationships and content types take
entries for them. -/
structure TakesChunks (main : String) (package : Package) : Prop where
  normal : PartName.IsNormal main
  document : HostsIn main package
  types : ∃ listed, package.document ContentTypes.partName = .ok listed ∧
    ListsIn Namespace.contentTypes listed ∧ ContentTypes.EntriesIn listed
  relationships : ∃ related, package.relationshipPart main = .ok related ∧
    ListsIn Namespace.packageRelationships related
  notTypes : ∀ index, package.find? main = some index →
    package.find? ContentTypes.partName ≠ some index
  notRelationships : ∀ index, package.find? main = some index →
    package.find? (PartName.relationshipsOf main) ≠ some index

/-- Reading keeps all texts of the main part that is stored. -/
def MainKeepsTexts (main : String) (package : Package) : Prop :=
  ∀ root, package.document main = .ok root → KeepsTexts root

/-- The main part of a package is named by steps from the top. -/
theorem isNormal_mainPart {package : Package} {main : String}
    (isMain : package.mainPart = .ok main) :
    PartName.IsNormal main := by
  have usual : PartName.IsNormal usualMainPart := by
    refine ⟨["word".toList, "document.xml".toList], ?_, by decide⟩
    refine List.forall_mem_cons.2 ⟨?_, List.forall_mem_singleton.2 ?_⟩
    · exact ⟨by decide, by decide, by decide, by decide⟩
    · exact ⟨by decide, by decide, by decide, by decide⟩
  rw [mainPart] at isMain
  cases related : package.relationships "" with
  | error error =>
      rw [related] at isMain
      cases isMain
  | ok relationships =>
      rw [related] at isMain
      simp only [bind, Except.bind] at isMain
      split at isMain
      · rename_i part isPart
        cases isMain
        rcases Option.filter_eq_some_iff.1 isPart with ⟨leads, _⟩
        rcases Option.bind_eq_some_iff.1 leads with ⟨relationship, _, target⟩
        rw [Relationship.part?] at target
        split at target
        · cases target
        · cases target
          have top : PartName.AreSteps (PartName.foldersOf "") := List.forall_mem_nil _
          exact PartName.isNormal_resolve top _
      · split at isMain
        · cases isMain
          exact usual
        · cases isMain

variable {package : Package} {main : String}

theorem on_embedChunk {root : Node} (holds : package.document main = .ok root) (idStem : String)
    (number : Nat) (value : String) :
    (embedChunk main idStem number value).on package =
      match root.findShowing? value with
      | none => (.ok false, package)
      | some path =>
          match (addChunkPart main (idStem ++ toString number)
            (Utf8.encode value.toList)).on package with
          | (.ok _, after) =>
              (.ok true, after.setDocument main (root.putChunk path (idStem ++ toString number)))
          | (.error error, after) => (.error error, after) := by
  rw [embedChunk, Edit.on_bind, Edit.on_learn, holds]
  simp only
  cases root.findShowing? value with
  | none => rfl
  | some path =>
      simp only
      rw [Edit.on_bind]
      rcases (addChunkPart main (idStem ++ toString number) (Utf8.encode value.toList)).on package
        with ⟨_ | _, after⟩ <;> rfl

section Step

variable {root types related : Node} {path : Path} {part id value : String} {number : Nat}

/-- The main part is stored with a chunk where a paragraph showed a value.  It is read back with
its texts joined, so it is what was stored if no texts were to be joined before. -/
private theorem putChunk_of_shows (hosts : HostsChunks root) (shows : root.ShowsFirst value path)
    (id : String) (before : Package) (main : String) :
    (before.setDocument main (root.putChunk path id)).document main =
        .ok (root.putChunk path id).reread ∧
      HostsChunks (root.putChunk path id).reread ∧
      ∃ declared chunk, DeclaresReferences root declared ∧ IsChunk id chunk ∧
        chunk.label ∈ (root.putChunk path id).reread.elements ∧
        (KeepsTexts root → (root.putChunk path id).reread = declared.replaceAt path chunk) := by
  rcases shows.shows.paragraph with ⟨node, isAt, paragraph, _⟩
  have element : node.isElement = true := by
    cases node with
    | element => rfl
    | text | comment => cases paragraph
  have reached := reaches_of_at? isAt
  rcases hosts.putChunk reached shows.shows.below element id with
    ⟨declared, chunk, declares, isChunk, put, hosts', kept'⟩
  have read := hosts'.readBytes_eq_reread
  refine ⟨document_of_get? (get?_store _ _ _) read, hosts'.reread, declared, chunk, declares,
    isChunk, ?_, fun kept => ?_⟩
  · -- Reading keeps the elements, and the chunk is one of them.
    have isElement : chunk.isElement = true := by
      cases isChunk
      rfl
    have put' := (declares.reaches reached shows.shows.below).mem_replaceAt chunk
    rw [elements_reread, put]
    exact List.mem_map_of_mem (List.mem_filter.2 ⟨put', isElement⟩)
  · rw [reread_eq_self (kept' kept), put]

/-- The package with the chunk part and the entries for it. -/
def stored (package : Package) (main part id value : String) (types related : Node) :
    Package :=
  package.withChunk main part (ContentTypes.setOverride types part ContentTypes.chunk)
    (Relationship.appendTo related (chunkRelationship main part id)) (Utf8.encode value.toList)

/-- The entries for a chunk part can be read. -/
private theorem entries_stored (fresh : package.IsFreshChunk main part number)
    (typesAre : package.document ContentTypes.partName = .ok types)
    (lists : ListsIn Namespace.contentTypes types)
    (lists' : ListsIn Namespace.packageRelationships related) (id value : String) :
    (stored package main part id value types related).document ContentTypes.partName =
        .ok (ContentTypes.setOverride types part ContentTypes.chunk).reread ∧
      (stored package main part id value types related).relationshipPart main =
        .ok (Relationship.appendTo related (chunkRelationship main part id)).reread ∧
      (stored package main part id value types related).get? part =
        some (Utf8.encode value.toList) := by
  rcases exists_find?_of_document typesAre with ⟨place, found⟩
  rcases get?_withChunk found fresh (ContentTypes.setOverride types part ContentTypes.chunk)
    (Relationship.appendTo related (chunkRelationship main part id)) (Utf8.encode value.toList)
    with ⟨typesStored, partStored, relatedStored⟩
  refine ⟨?_, ?_, partStored⟩
  · have read := (lists.setOverride part ContentTypes.chunk).readBytes_eq_reread
    exact document_of_get? typesStored read
  · exact relationshipPart_of_get? relatedStored (lists'.appendTo _).readBytes_eq_reread

/-- Storing the main part behind the others changes the main part alone. -/
private theorem setDocument_main {stored : Package} {touched added : List String}
    (takes : TakesChunks main package) (grows : Grows touched package stored added)
    (found : package.find? main = some number) (root : Node) :
    Grows [main] stored (stored.setDocument main root) [] ∧
      (∀ other, package.find? other ≠ some number →
        (stored.setDocument main root).get? other = stored.get? other) ∧
      (stored.setDocument main root).relationshipPart main = stored.relationshipPart main := by
  have found' := grows.find?_eq found
  have again := grows_set found' root.toBytes
  refine ⟨again, ?_, ?_⟩
  · intro other apart
    exact get?_set_other found' (grows.find?_ne found apart) root.toBytes
  · refine again.relationshipPart_eq ?_ (List.forall_mem_nil _)
    intro index isRelated
    rw [List.forall_mem_singleton]
    intro isMain
    rw [found', Option.some.injEq] at isMain
    rw [← isMain] at isRelated
    exact grows.find?_ne found (takes.notRelationships number found) isRelated

/-- What a package has been turned into by a chunk next to its main part, as it is read. -/
private structure HasStored (main part id value : String) (root : Node) (path : Path)
    (types related : Node) (before after : Package) : Prop where
  document : after.document main = .ok (root.putChunk path id).reread
  types : after.document ContentTypes.partName =
    .ok (ContentTypes.setOverride types part ContentTypes.chunk).reread
  relationships : after.relationshipPart main =
    .ok (Relationship.appendTo related (chunkRelationship main part id)).reread
  content : after.get? part = some (Utf8.encode value.toList)
  others : Grows [ContentTypes.partName, PartName.relationshipsOf main, main] before after
    (PartName.bare part :: if before.has (PartName.relationshipsOf main) then []
      else [PartName.bare (PartName.relationshipsOf main)])

variable {after : Package}

theorem TakesChunks.listsIn_types (takes : TakesChunks main package)
    (typesAre : package.document ContentTypes.partName = .ok types) :
    ListsIn Namespace.contentTypes types ∧ ContentTypes.EntriesIn types := by
  rcases takes.types with ⟨listed, isListed, lists⟩
  rw [typesAre, Except.ok.injEq] at isListed
  exact isListed ▸ lists

theorem TakesChunks.listsIn_relationships (takes : TakesChunks main package)
    (isRelated : package.relationshipPart main = .ok related) :
    ListsIn Namespace.packageRelationships related := by
  rcases takes.relationships with ⟨known, isKnown, lists⟩
  rw [isRelated, Except.ok.injEq] at isKnown
  exact isKnown ▸ lists

private theorem hasStored_of_shows (takes : TakesChunks main package)
    (holds : package.document main = .ok root) (hosts : HostsChunks root)
    (shows : root.ShowsFirst value path) (isRelated : package.relationshipPart main = .ok related)
    (fresh : package.IsFreshChunk main part number)
    (typesAre : package.document ContentTypes.partName = .ok types) :
    HasStored main part id value root path types related package
      ((stored package main part id value types related).setDocument main
        (root.putChunk path id)) := by
  rcases exists_find?_of_document holds with ⟨index, found⟩
  rcases exists_find?_of_document typesAre with ⟨place, foundTypes⟩
  have grows : Grows _ package (stored package main part id value types related) _ :=
    grows_withChunk foundTypes fresh _ _ _
  rcases entries_stored fresh typesAre (takes.listsIn_types typesAre).1
    (takes.listsIn_relationships isRelated) id value with
    ⟨typesStored, relatedStored, partStored⟩
  rcases setDocument_main takes grows found (root.putChunk path id) with
    ⟨again, others, relatedKept⟩
  have total := grows.trans again
  rw [List.append_nil] at total
  -- Storing the main part cannot hit the new part, which was not there before.
  have chunkAbsent : package.find? part ≠ some index := by
    intro there
    have absent := fresh.absent
    rw [has, there] at absent
    cases absent
  constructor
  case document => exact (putChunk_of_shows hosts shows id _ main).1
  case types =>
    rw [Package.document, others _ (takes.notTypes index found)]
    exact typesStored
  case relationships => exact relatedKept.trans relatedStored
  case content => rw [others part chunkAbsent, partStored]
  case others => exact total

/-- With a chunk stored next to its main part a package takes further chunks. -/
private theorem HasStored.takesChunks
    (stored : HasStored main part id value root path types related package after)
    (takes : TakesChunks main package) (holds : package.document main = .ok root)
    (hosts : HostsChunks (root.putChunk path id).reread)
    (lists : ListsIn Namespace.contentTypes types ∧ ContentTypes.EntriesIn types)
    (lists' : ListsIn Namespace.packageRelationships related) : TakesChunks main after := by
  rcases exists_find?_of_document holds with ⟨index, found⟩
  have found' := stored.others.find?_eq found
  constructor
  case normal => exact takes.normal
  case document => exact ⟨_, stored.document, hosts⟩
  case types =>
    exact ⟨_, stored.types, (lists.1.setOverride part ContentTypes.chunk).reread,
      (lists.2.setOverride lists.1.isElement part ContentTypes.chunk).reread⟩
  case relationships => exact ⟨_, stored.relationships, (lists'.appendTo _).reread⟩
  case notTypes =>
    intro place isMain
    rw [found', Option.some.injEq] at isMain
    exact isMain ▸ stored.others.find?_ne found (takes.notTypes index found)
  case notRelationships =>
    intro place isMain
    rw [found', Option.some.injEq] at isMain
    exact isMain ▸ stored.others.find?_ne found (takes.notRelationships index found)

/-- A value that a paragraph shows is embedded, and the next one can be. -/
private theorem embedded_of_shows (takes : TakesChunks main package)
    (holds : package.document main = .ok root) (hosts : HostsChunks root)
    (shows : root.ShowsFirst value path) (isRelated : package.relationshipPart main = .ok related)
    (free : ∀ old ∈ Relationship.allOf related, old.id ≠ id)
    (fresh : package.IsFreshChunk main part number)
    (typesAre : package.document ContentTypes.partName = .ok types) :
    TakesChunks main ((stored package main part id value types related).setDocument main
        (root.putChunk path id)) ∧
      (KeepsTexts root → Embedded main id value package
        ((stored package main part id value types related).setDocument main
          (root.putChunk path id)) part) := by
  have lists := takes.listsIn_types typesAre
  have lists' := takes.listsIn_relationships isRelated
  rcases putChunk_of_shows hosts shows id (stored package main part id value types related) main
    with ⟨_, hosts', declared, chunk, declares, isChunk, _, same⟩
  have done : HasStored main part id value root path types related package _ :=
    hasStored_of_shows takes holds hosts shows isRelated fresh typesAre
  refine ⟨done.takesChunks takes holds hosts' lists lists', fun kept => ?_⟩
  have mainRead := done.document
  rw [same kept] at mainRead
  constructor
  case document => exact ⟨root, path, declared, chunk, holds, shows, declares, isChunk, mainRead⟩
  case fresh => exact ⟨number, fresh⟩
  case content => exact done.content
  case relationships =>
    refine ⟨_, chunkRelationship main part id, ?_, free, rfl, rfl,
      part?_chunkRelationship takes.normal fresh id, ?_⟩
    · exact relationships_eq_ok_iff.2 ⟨related, isRelated, rfl⟩
    · exact relationships_eq_ok_iff.2
        ⟨_, done.relationships, Relationship.allOf_reread_appendTo lists'.isElement _⟩
  case types =>
    refine ⟨types, _, typesAre, done.types, fun name => ?_⟩
    rw [ContentTypes.type?_reread, ContentTypes.type?_setOverride lists.1.isElement lists.2]
  case others => exact done.others

/-- A value is passed over, refused or embedded, and in the end the next one can be embedded. -/
theorem TakesChunks.exists_embedStep (takes : TakesChunks main package) (idStem : String)
    (number : Nat) (value : String) :
    ∃ result after, (embedChunk main idStem number value).on package = (result, after) ∧
      (∀ shown, result = .ok shown → TakesChunks main after) ∧
      (MainKeepsTexts main package →
        EmbedStep main (idStem ++ toString number) value package result after ∧
        ∀ shown, result = .ok shown → MainKeepsTexts main after) := by
  rcases takes.document with ⟨root, holds, hosts⟩
  rcases takes.types with ⟨types, typesAre, _⟩
  rcases takes.relationships with ⟨related, isRelated, _⟩
  have step := on_embedChunk holds idStem number value
  cases found : root.findShowing? value with
  | none =>
      rw [found] at step
      refine ⟨_, _, step, fun _ _ => takes, fun kept => ⟨?_, fun _ _ => kept⟩⟩
      exact .skipped holds (not_showsAt_of_findShowing? found)
  | some path =>
      have shows := showsFirst_of_findShowing? found
      rw [found] at step
      simp only [on_addChunkPart isRelated typesAre] at step
      by_cases inUse : ((Relationship.allOf related).any
          (·.id == idStem ++ toString number)) = true
      · rw [if_pos inUse] at step
        have isKnown := relationships_eq_ok_iff.2 ⟨related, isRelated, rfl⟩
        refine ⟨_, _, step, nofun, fun _ => ⟨.refused holds shows isKnown ?_, nofun⟩⟩
        simpa using inUse
      · rw [if_neg inUse] at step
        rcases isFreshChunk_freshChunk package main with ⟨chunk, fresh⟩
        have free : ∀ old ∈ Relationship.allOf related, old.id ≠ idStem ++ toString number := by
          simpa using inUse
        rcases embedded_of_shows takes holds hosts shows isRelated free fresh typesAre with
          ⟨again, embedded⟩
        refine ⟨_, _, step, fun _ _ => again, fun kept => ?_⟩
        refine ⟨.embedded (embedded (kept root holds)), fun _ _ last isLast => ?_⟩
        have same := isLast.symm.trans (putChunk_of_shows hosts shows _ _ _).1
        rw [Except.ok.inj same]
        exact keepsTexts_reread

end Step

end Package

end TemplateFill
