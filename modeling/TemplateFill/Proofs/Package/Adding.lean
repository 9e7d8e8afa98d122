import TemplateFill.Proofs.Markup.Respelled
import TemplateFill.Proofs.Package.EmbedRun

/-!
# Adding a chunk part

A chunk part comes with a relationship to it and a content type.  Everything that can be refused
is refused before the first part is stored, so a package either has all three afterwards or is as
it was.
-/

namespace TemplateFill

open Markup Node Text

/-! ## Content types that are read again -/

namespace ContentTypes

variable {types : Node} {part type : String}

end ContentTypes

namespace Package

/-! ## What is refused -/

/-- Why a package takes no chunk part next to a source. -/
inductive RefusesChunk (package : Package) (source id : String) : Error → Prop where
  | unrelated {error : Error} (unread : package.relationships source = .error error) :
      RefusesChunk package source id error
  | inUse {known : List Relationship} {old : Relationship}
      (isKnown : package.relationships source = .ok known) (member : old ∈ known)
      (same : old.id = id) :
      RefusesChunk package source id (.relationshipInUse id)
  | untyped {known : List Relationship} {error : Error}
      (isKnown : package.relationships source = .ok known) (free : ∀ old ∈ known, old.id ≠ id)
      (unread : package.document ContentTypes.partName = .error error) :
      RefusesChunk package source id error

variable {package after : Package} {source id part : String}

/-- What is refused is refused before anything is stored. -/
theorem RefusesChunk.on_addChunkPart {error : Error}
    (refuses : RefusesChunk package source id error) (content : Bytes) :
    (addChunkPart source id content).on package = (.error error, package) := by
  cases refuses with
  | unrelated unread => rw [addChunkPart, Edit.on_bind, Edit.on_learn, unread]
  | @inUse known old isKnown member same =>
      have used : known.any (·.id == id) = true := by
        simpa using ⟨old, member, same⟩
      rw [addChunkPart, Edit.on_bind, Edit.on_learn, isKnown]
      simp only
      rw [if_pos used]
      rfl
  | @untyped known error isKnown free unread =>
      have unused : ¬ known.any (·.id == id) = true := by
        simpa using free
      rw [addChunkPart, Edit.on_bind, Edit.on_learn, isKnown]
      simp only
      rw [if_neg unused, Edit.on_bind, Edit.on_get]
      simp only
      rw [Edit.on_bind, Edit.on_learn, unread]

/-! ## What is added -/

/-- A package whose content types, and relationships of a source, are entries of their namespaces
with legal names. -/
structure TakesEntries (package : Package) (source : String) : Prop where
  normal : PartName.IsNormal source
  types : ∃ types, EntryPart package ContentTypes.partName Namespace.contentTypes types ∧
    ContentTypes.EntriesIn types
  related : package.has (PartName.relationshipsOf source) = true →
    ∃ related, EntryPart package (PartName.relationshipsOf source) Namespace.packageRelationships
      related

/-- No attribute of the root of the relationships only looks like a declaration. -/
def SpellsRelationships (package : Package) (source : String) : Prop :=
  ∀ related, package.document (PartName.relationshipsOf source) = .ok related →
    OnlyDeclarations related.attrs

/-- A part with legal names can be stored and read again. -/
private theorem EntryPart.writable {name ns : String} {root : Node}
    (entry : EntryPart package name ns root) : Writable [] root ∧ root.isElement = true := by
  rcases exists_read_of_document entry.holds with ⟨content, found, read⟩
  exact writable_of_readBytes (entry.legal content found) read

/-- The relationships of a source take one more. -/
private theorem TakesEntries.listsRelated (takes : TakesEntries package source)
    (spells : SpellsRelationships package source) {related : Node}
    (isRelated : package.relationshipPart source = .ok related) :
    ListsIn Namespace.packageRelationships related := by
  rw [relationshipPart] at isRelated
  split at isRelated
  · rename_i there
    rcases takes.related there with ⟨known, entry⟩
    rw [entry.holds, Except.ok.injEq] at isRelated
    exact isRelated ▸ entry.listsIn (spells known entry.holds)
  · cases isRelated
    exact .emptyPart

section Added

variable {types related : Node} {number : Nat}
  (fresh : package.IsFreshChunk source part number)
  (typesAre : package.document ContentTypes.partName = .ok types)

include fresh typesAre

end Added

/-- A package with a list of content types, a main part and its relationships. -/
def threeParts (related : Node) : Package :=
  ⟨[⟨ContentTypes.partName, noTypes.toBytes⟩, ⟨usualMainPart, []⟩,
    ⟨PartName.relationshipsOf usualMainPart, related.toBytes⟩]⟩

section ThreeParts

variable {related : Node}

theorem find?_threeParts (related : Node) (name : String) :
    (threeParts related).find? name = (threeParts noTypes).find? name := find?_congr rfl name

end ThreeParts

/-- A list of relationships without entries, with an attribute in the namespace of declarations
that declares nothing. -/
def posingRelationships : Node :=
  .element ⟨some Namespace.packageRelationships, some "t", "Relationships"⟩
    [declarationFor Namespace.declarations "z",
      ⟨⟨some Namespace.declarations, some "z", "u"⟩, Namespace.packageRelationships⟩,
      declarationFor Namespace.packageRelationships "t"] []

/-- What is read after the relationship has been added: an element with a qualifier that is not
declared. -/
def strayRelationship : Node :=
  posingRelationships.mapChildren fun _ =>
    [.element ⟨none, some "u", "Relationship"⟩
      (chunkRelationship usualMainPart "word/afchunk1.xhtml" "c").attrs []]

end Package

end TemplateFill
