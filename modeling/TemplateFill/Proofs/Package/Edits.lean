import TemplateFill.Package.Structure
import TemplateFill.Proofs.Package.Entries
import TemplateFill.Proofs.Package.PartName

/-!
# Edits of a package

What an edit does to a package is followed step by step: what it learns leaves the package as it
is, and what it stores can be read afterwards, in parts that are there and in parts that are new.
-/

namespace TemplateFill.Package

open Markup Node Text

/-! ## Runs -/

namespace Edit

variable {α β : Type} {package : Package}

/-- The result of an edit, and the package afterwards. -/
def on (edit : Edit α) (package : Package) : Except Error α × Package := edit.run.run package

theorem on_bind (edit : Edit α) (next : α → Edit β) (package : Package) :
    (edit >>= next).on package =
      match edit.on package with
      | (.ok value, after) => (next value).on after
      | (.error error, after) => (.error error, after) := by
  rcases ran : edit.on package with ⟨result, after⟩
  rw [on] at ran
  rw [on, ExceptT.run_bind, StateT.run_bind, ran]
  cases result <;> rfl

theorem on_get (package : Package) : (get : Edit Package).on package = (.ok package, package) := rfl

theorem on_learn (question : Package → Except Error α) (package : Package) :
    (learn question).on package = (question package, package) := by
  rw [learn, on_bind, on_get]
  simp only
  cases question package <;> rfl

end Edit
/-! ## Relationships -/

variable {package : Package}

/-- The part with the relationships of a source, as an edit finds it. -/
def relationshipPart (package : Package) (source : String) : Except Error Node :=
  if package.has (PartName.relationshipsOf source) then
    package.document (PartName.relationshipsOf source)
  else .ok Relationship.emptyPart

theorem relationships_eq (package : Package) (source : String) :
    package.relationships source = (package.relationshipPart source).map Relationship.allOf := by
  rw [relationships, relationshipPart]
  split <;> rfl

theorem relationships_eq_ok_iff {source : String} {known : List Relationship} :
    package.relationships source = .ok known ↔
      ∃ root, package.relationshipPart source = .ok root ∧ Relationship.allOf root = known := by
  rw [relationships_eq]
  cases package.relationshipPart source <;> simp [Except.map]

/-- The part with the relationships of a source is empty if it is not there. -/
theorem relationshipPart_eq (package : Package) (source : String) :
    package.relationshipPart source =
      match package.get? (PartName.relationshipsOf source) with
      | none => .ok Relationship.emptyPart
      | some content => (readBytes content).mapError .markup := by
  rw [relationshipPart]
  simp only [has_eq_true_iff, document]
  cases package.get? (PartName.relationshipsOf source) <;> rfl

theorem relationshipPart_of_get? {source : String} {content : Bytes} {root : Node}
    (holds : package.get? (PartName.relationshipsOf source) = some content)
    (read : readBytes content = .ok root) : package.relationshipPart source = .ok root := by
  have there : package.has (PartName.relationshipsOf source) = true := by
    rw [has_eq_true_iff, holds]
    rfl
  rw [relationshipPart, if_pos there, document_of_get? holds read]

theorem on_addRelationship (source : String) (relationship : Relationship) (package : Package) :
    (addRelationship source relationship).on package =
      match package.relationshipPart source with
      | .error error => (.error error, package)
      | .ok root =>
          if (Relationship.allOf root).any (·.id == relationship.id) then
            (.error (.relationshipInUse relationship.id), package)
          else (.ok (), package.setDocument (PartName.relationshipsOf source)
            (Relationship.appendTo root relationship)) := by
  rw [addRelationship, Edit.on_bind, Edit.on_learn, ← relationshipPart]
  cases package.relationshipPart source with
  | error => rfl
  | ok root =>
      simp only
      split <;> rfl

/-! ## Chunk parts -/

/-- The relationship of a source to a chunk part. -/
def chunkRelationship (source part id : String) : Relationship :=
  ⟨id, Relationship.chunkType, PartName.relative source part, false⟩

/-- The package with a content type for a part, with this part, and with a relationship to it. -/
def withChunk (package : Package) (source part : String) (types relationships : Node)
    (content : Bytes) : Package :=
  ((package.setDocument ContentTypes.partName types).set part content).setDocument
    (PartName.relationshipsOf source) relationships

/-- A package that has grown elsewhere has the relationships of before. -/
theorem Grows.relationshipPart_eq {touched added : List String} {after : Package} {source : String}
    (grows : Grows touched package after added)
    (untouched : ∀ index, package.find? (PartName.relationshipsOf source) = some index →
      ∀ name ∈ touched, package.find? name ≠ some index)
    (apart : ∀ new ∈ added,
      sameButCase new (PartName.bare (PartName.relationshipsOf source)) = false) :
    after.relationshipPart source = package.relationshipPart source := by
  cases found : package.find? (PartName.relationshipsOf source) with
  | some index =>
      have there : package.has (PartName.relationshipsOf source) = true := by
        rw [has, found]
        rfl
      have there' : after.has (PartName.relationshipsOf source) = true := by
        rw [has, grows.find?_eq found]
        rfl
      rw [relationshipPart, relationshipPart, if_pos there, if_pos there',
        grows.document_eq found (untouched index found)]
  | none =>
      have absent : ¬ package.has (PartName.relationshipsOf source) = true := by
        rw [has, found]
        exact Bool.false_ne_true
      have absent' : ¬ after.has (PartName.relationshipsOf source) = true := by
        rw [has, grows.find?_eq_none found apart]
        exact Bool.false_ne_true
      rw [relationshipPart, relationshipPart, if_neg absent, if_neg absent']

/-- The relationship to a chunk part leads there. -/
theorem part?_chunkRelationship {source part : String} {number : Nat}
    (normal : PartName.IsNormal source) (fresh : package.IsFreshChunk source part number)
    (id : String) : (chunkRelationship source part id).part? source = some part := by
  have leads := PartName.areSteps_chunk normal number
  rw [← fresh.name] at leads
  have internal : (chunkRelationship source part id).part? source =
      some (PartName.resolve source (PartName.relative source part)) := rfl
  rw [internal, PartName.resolve_relative normal leads]

section Chunk

variable {source part id : String} {number place : Nat}
  (found : package.find? ContentTypes.partName = some place)
  (fresh : package.IsFreshChunk source part number)

include found fresh

/-- What is stored for a chunk part before its relationship. -/
private theorem grows_stored (types : Node) (content : Bytes) :
    Grows [ContentTypes.partName] package
        ((package.setDocument ContentTypes.partName types).set part content) [PartName.bare part] ∧
      ((package.setDocument ContentTypes.partName types).set part content).get?
        ContentTypes.partName = some types.toBytes ∧
      ((package.setDocument ContentTypes.partName types).set part content).find? part =
        some package.parts.length := by
  have typed := grows_set found types.toBytes
  have absent : package.find? part = none := by
    rw [← Option.not_isSome_iff_eq_none]
    exact Bool.eq_false_iff.1 fresh.absent
  have absent' : (package.set ContentTypes.partName types.toBytes).find? part = none :=
    typed.find?_eq_none absent (List.forall_mem_nil _)
  have lengths : (package.set ContentTypes.partName types.toBytes).parts.length =
      package.parts.length := by
    rw [← length_names, typed.names, List.append_nil, length_names]
  have stored := grows_new absent' content
  refine ⟨typed.trans stored, ?_, ?_⟩
  · rw [setDocument, stored.get?_eq (typed.find?_eq found) (List.forall_mem_nil _)]
    exact get?_set found types.toBytes
  · rw [setDocument, find?_new absent', lengths]

private theorem relationships_apart (types : Node) (content : Bytes) (other : String) :
    ((package.setDocument ContentTypes.partName types).set part content).relationshipPart other =
      package.relationshipPart other := by
  refine (grows_stored found fresh types content).1.relationshipPart_eq ?_ ?_
  · intro index isRelationships
    rw [List.forall_mem_singleton]
    intro isTypes
    exact find?_ne_of_apart (PartName.contentTypes_ne_relationshipsOf other) isTypes isRelationships
  · rw [List.forall_mem_singleton, fresh.name]
    exact PartName.chunk_ne_relationshipsOf source other number

/-- A chunk part is added behind the others, and so is a part of relationships if it is new; of the
parts that were there only the content types and the relationships of the source change. -/
theorem grows_withChunk (types relationships : Node) (content : Bytes) :
    Grows [ContentTypes.partName, PartName.relationshipsOf source] package
      (package.withChunk source part types relationships content)
      (PartName.bare part :: if package.has (PartName.relationshipsOf source) then []
        else [PartName.bare (PartName.relationshipsOf source)]) := by
  have stored := (grows_stored found fresh types content).1
  have related := grows_store
    ((package.setDocument ContentTypes.partName types).set part content)
    (PartName.relationshipsOf source) relationships.toBytes
  have same : ((package.setDocument ContentTypes.partName types).set part content).has
      (PartName.relationshipsOf source) = package.has (PartName.relationshipsOf source) := by
    rw [Bool.eq_iff_iff, has_iff, has_iff, stored.names]
    have apart : ¬ sameButCase (PartName.bare part)
        (PartName.bare (PartName.relationshipsOf source)) = true := by
      rw [fresh.name, PartName.chunk_ne_relationshipsOf]
      exact Bool.false_ne_true
    simp [or_and_right, exists_or, apart]
  rw [same] at related
  exact stored.trans related

/-- The parts that were stored have their contents. -/
theorem get?_withChunk (types relationships : Node) (content : Bytes) :
    (package.withChunk source part types relationships content).get? ContentTypes.partName =
        some types.toBytes ∧
      (package.withChunk source part types relationships content).get? part = some content ∧
      (package.withChunk source part types relationships content).get?
        (PartName.relationshipsOf source) = some relationships.toBytes := by
  rcases grows_stored found fresh types content with ⟨stored, typesAre, isPart⟩
  have related := grows_store
    ((package.setDocument ContentTypes.partName types).set part content)
    (PartName.relationshipsOf source) relationships.toBytes
  refine ⟨?_, ?_, get?_store _ _ _⟩
  · rw [withChunk, setDocument, related.get?_eq (stored.find?_eq found), typesAre]
    rw [List.forall_mem_singleton]
    intro isRelationships
    exact find?_ne_of_apart (PartName.contentTypes_ne_relationshipsOf source)
      (stored.find?_eq found) isRelationships
  · rw [withChunk, setDocument, related.get?_eq isPart, get?_store]
    rw [List.forall_mem_singleton]
    have apart := PartName.chunk_ne_relationshipsOf source source number
    rw [← fresh.name] at apart
    exact find?_ne_of_apart apart isPart

end Chunk

/-- A chunk part is added unless the id is in use, and then nothing is stored. -/
theorem on_addChunkPart {source : String} {types related : Node}
    (isRelated : package.relationshipPart source = .ok related)
    (holds : package.document ContentTypes.partName = .ok types) (id : String) (content : Bytes) :
    (addChunkPart source id content).on package =
      if (Relationship.allOf related).any (·.id == id) then
        (.error (.relationshipInUse id), package)
      else (.ok (package.freshChunk source), package.withChunk source (package.freshChunk source)
        (ContentTypes.setOverride types (package.freshChunk source) ContentTypes.chunk)
        (Relationship.appendTo related (chunkRelationship source (package.freshChunk source) id))
        content) := by
  have isKnown := relationships_eq_ok_iff.2 ⟨related, isRelated, rfl⟩
  rcases exists_find?_of_document holds with ⟨place, found⟩
  rcases isFreshChunk_freshChunk package source with ⟨number, fresh⟩
  rw [addChunkPart, Edit.on_bind, Edit.on_learn, isKnown]
  simp only
  split
  · rfl
  · rename_i free
    have last : ∀ part stored, stored.relationshipPart source = .ok related → (do
          addRelationship source ⟨id, Relationship.chunkType, PartName.relative source part, false⟩
          return part : Edit String).on stored =
        (.ok part, stored.setDocument (PartName.relationshipsOf source)
          (Relationship.appendTo related (chunkRelationship source part id))) := by
      intro part stored isRelated
      rw [Edit.on_bind, on_addRelationship, isRelated]
      simp only
      rw [if_neg free]
      rfl
    rw [Edit.on_bind, Edit.on_get]
    simp only
    rw [Edit.on_bind, Edit.on_learn, holds]
    apply last
    rw [relationships_apart found fresh, isRelated]

end TemplateFill.Package
