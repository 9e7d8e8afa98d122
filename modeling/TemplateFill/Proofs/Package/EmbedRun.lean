import TemplateFill.Proofs.Package.Embedding

/-!
# Embedding all values of a queue

The values of a queue are embedded one after the other, up to the first one whose id is in use.
What is known of one of them holds along the run.
-/

namespace TemplateFill

open Markup Node Text

/-- The numbers of the values are their positions, counted from one on. -/
theorem ChunkQueue.numbered_eq (queue : ChunkQueue) :
    queue.numbered = (queue.values.zipIdx 1).map fun entry => (entry.2, entry.1) := by
  rw [numbered, @List.zipIdx_eq_map_add _ _ 1]
  simp [Nat.add_comm]

namespace Package

/-- Values with the numbers from `number` on are embedded one after the other, up to the first that
is refused; the result is the number of those that were shown. -/
inductive EmbedRun (main idStem : String) :
    Nat → List String → Package → Except Error Nat → Package → Prop where
  | done {number : Nat} {package : Package} :
      EmbedRun main idStem number [] package (.ok 0) package
  | refused {number : Nat} {value : String} {rest : List String} {package after : Package}
      {error : Error}
      (step : EmbedStep main (idStem ++ toString number) value package (.error error) after) :
      EmbedRun main idStem number (value :: rest) package (.error error) after
  | next {number : Nat} {value : String} {rest : List String} {package middle after : Package}
      {shown : Bool} {result : Except Error Nat}
      (step : EmbedStep main (idStem ++ toString number) value package (.ok shown) middle)
      (run : EmbedRun main idStem (number + 1) rest middle result after) :
      EmbedRun main idStem number (value :: rest) package
        (result.map (· + if shown then 1 else 0)) after

variable {package : Package} {main : String}

/-! ## All values -/

/-- The values of a queue are embedded with their numbers in the main part. -/
theorem on_embedChunks (isMain : package.mainPart = .ok main) (queue : ChunkQueue)
    (idStem : String) :
    (embedChunks queue idStem).on package = (embedFrom main idStem 0
      ((queue.values.zipIdx 1).map fun entry => (entry.2, entry.1))).on package := by
  rw [embedChunks, Edit.on_bind, Edit.on_learn, isMain, ChunkQueue.numbered_eq]

/-- Counting from another number on gives as many more. -/
theorem embedFrom_count (main idStem : String) (count : Nat) (entries : List (Nat × String))
    (package : Package) :
    (embedFrom main idStem count entries).on package =
      (((embedFrom main idStem 0 entries).on package).1.map (count + ·),
        ((embedFrom main idStem 0 entries).on package).2) := by
  induction entries generalizing count package with
  | nil => rfl
  | cons entry rest ih =>
      rcases entry with ⟨number, value⟩
      rw [embedFrom, embedFrom, Edit.on_bind, Edit.on_bind]
      rcases (embedChunk main idStem number value).on package with ⟨_ | shown, after⟩
      · rfl
      · cases shown with
        | false => exact ih count after
        | true =>
            simp only [if_true]
            rw [ih (count + 1), ih (0 + 1)]
            cases ((embedFrom main idStem 0 rest).on after).1 with
            | error => rfl
            | ok shown => simp [Except.map, Nat.add_assoc]

/-- What one value after the other does is a run. -/
theorem TakesChunks.exists_embedRun (takes : TakesChunks main package)
    (kept : MainKeepsTexts main package) (idStem : String) (number : Nat) (values : List String) :
    ∃ result after,
      (embedFrom main idStem 0
        ((values.zipIdx number).map fun entry => (entry.2, entry.1))).on package =
        (result, after) ∧ EmbedRun main idStem number values package result after := by
  induction values generalizing number package with
  | nil => exact ⟨_, _, rfl, .done⟩
  | cons value rest ih =>
      rcases takes.exists_embedStep idStem number value with ⟨result, after, ran, again, steps⟩
      rcases steps kept with ⟨step, still⟩
      rw [List.zipIdx_cons, List.map_cons, embedFrom, Edit.on_bind, ran]
      cases result with
      | error error => exact ⟨_, _, rfl, .refused step⟩
      | ok shown =>
          -- The rest is counted from zero on, so the count so far goes in front.
          rcases ih (again shown rfl) (still shown rfl) (number + 1) with ⟨result, last, ran, run⟩
          simp only
          rw [embedFrom_count, ran]
          refine ⟨_, _, rfl, ?_⟩
          have counted := EmbedRun.next step run
          cases shown with
          | false => simpa using counted
          | true => simpa [Nat.add_comm] using counted

/-! ## Packages that are ready for chunks -/

/-- A part for entries of a namespace with legal names, whose root leaves the reserved qualifiers
alone. -/
structure EntryPart (package : Package) (name ns : String) (root : Node) : Prop where
  holds : package.document name = .ok root
  legal : ∀ content ∈ package.get? name, LegalNames content
  named : ∃ inner ∈ root.name?, inner.ns = some ns
  reserved : NoReserved root.attrs

/-- A document that is read back as it was written is such a part. -/
theorem entryPart_of_canonical {name ns : String} {root : Node}
    (holds : package.get? name = some root.toBytes) (canonical : readBytes root.toBytes = .ok root)
    (legal : LegalText root.toDocument) (named : ∃ inner ∈ root.name?, inner.ns = some ns)
    (reserved : NoReserved root.attrs) : EntryPart package name ns root := by
  refine ⟨document_of_get? holds canonical, ?_, named, reserved⟩
  rw [holds]
  rintro _ ⟨⟩
  exact legalNames_toBytes legal

/-- A part with legal names is read from a content with legal names. -/
private theorem exists_content {name : String} {root : Node}
    (holds : package.document name = .ok root)
    (legal : ∀ content ∈ package.get? name, LegalNames content) :
    ∃ content, LegalNames content ∧ readBytes content = .ok root := by
  rcases exists_read_of_document holds with ⟨content, found, read⟩
  exact ⟨content, legal content found, read⟩

theorem EntryPart.listsIn {name ns : String} {root : Node} (entry : EntryPart package name ns root)
    (only : OnlyDeclarations root.attrs) : ListsIn ns root := by
  rcases exists_content entry.holds entry.legal with ⟨content, legal, read⟩
  exact ⟨(writable_of_readBytes legal read).1, entry.named, entry.reserved, only⟩

/-- A package whose main part has all declarations at its root, a qualifier for references among
them unless the usual one is free. -/
structure MainReady (package : Package) (main : String) (root : Node) : Prop where
  isMain : package.mainPart = .ok main
  holds : package.document main = .ok root
  legal : ∀ content ∈ package.get? main, LegalNames content
  below : ∀ child ∈ root.children, EveryLabel (fun label => declarations label.attrs = []) child
  word : Declares root.attrs Namespace.word
  reserved : NoReserved root.attrs
  references : BindsReferences root.attrs ∨
    ¬ Declares root.attrs Namespace.relationshipReference ∧
      ∀ declared ∈ declarations root.attrs, declared.1 ≠ "r"

/-- A package with such a main part whose relationships and content types are entries of their
namespaces. -/
structure ReadyForChunks (package : Package) (main : String) (root types : Node) : Prop
    extends MainReady package main root where
  typesPart : EntryPart package ContentTypes.partName Namespace.contentTypes types
  entries : ContentTypes.EntriesIn types
  related : package.has (PartName.relationshipsOf main) = true →
    ∃ related, EntryPart package (PartName.relationshipsOf main) Namespace.packageRelationships
      related
  notTypes : ∀ index, package.find? main = some index →
    package.find? ContentTypes.partName ≠ some index
  notRelationships : ∀ index, package.find? main = some index →
    package.find? (PartName.relationshipsOf main) ≠ some index

/-- No attribute of the root only looks like a declaration, and if the usual qualifier for
references is to be declared, no name is written with it before. -/
structure SpellsReferences (root : Node) : Prop where
  only : OnlyDeclarations root.attrs
  avoided : ¬ Declares root.attrs Namespace.relationshipReference →
    EveryLabel (Label.Avoids "r") root

/-- The same for the main part, and no attribute of the roots for entries only looks like a
declaration. -/
structure SpellsChunks (package : Package) (main : String) (root types : Node) : Prop
    extends SpellsReferences root where
  atTypes : OnlyDeclarations types.attrs
  atRelated : ∀ related, package.document (PartName.relationshipsOf main) = .ok related →
    OnlyDeclarations related.attrs

theorem MainReady.hostsChunks {root : Node} (ready : MainReady package main root)
    (spells : SpellsReferences root) : HostsChunks root := by
  rcases exists_content ready.holds ready.legal with ⟨content, legal, read⟩
  have references : TakesReferences root := by
    rcases ready.references with binds | ⟨undeclared, noQualifier⟩
    · exact .bound binds
    · exact .free undeclared noQualifier (spells.avoided undeclared)
  have all : DeclaresAll root := ⟨ready.below, ready.word, ready.reserved, spells.only⟩
  exact .of_readBytes all references legal read

theorem ReadyForChunks.takesChunks {root types : Node}
    (ready : ReadyForChunks package main root types)
    (spells : SpellsChunks package main root types) : TakesChunks main package := by
  constructor
  case normal => exact isNormal_mainPart ready.isMain
  case document => exact ⟨root, ready.holds, ready.hostsChunks spells.toSpellsReferences⟩
  case types =>
    exact ⟨types, ready.typesPart.holds, ready.typesPart.listsIn spells.atTypes, ready.entries⟩
  case relationships =>
    by_cases there : package.has (PartName.relationshipsOf main) = true
    · rcases ready.related there with ⟨related, entry⟩
      refine ⟨related, ?_, entry.listsIn (spells.atRelated related entry.holds)⟩
      rw [relationshipPart, if_pos there, entry.holds]
    · refine ⟨Relationship.emptyPart, ?_, .emptyPart⟩
      rw [relationshipPart, if_neg there]
  case notTypes => exact ready.notTypes
  case notRelationships => exact ready.notRelationships

/-! ## Packages that have two parts only -/

/-- A list of content types without entries. -/
def noTypes : Node :=
  .element ⟨some Namespace.contentTypes, none, "Types"⟩
    [⟨⟨some Namespace.declarations, none, "xmlns"⟩, Namespace.contentTypes⟩] []

/-- A package with a list of content types and a main part. -/
def twoParts (root : Node) : Package :=
  ⟨[⟨ContentTypes.partName, noTypes.toBytes⟩, ⟨usualMainPart, root.toBytes⟩]⟩

/-- A document that shows a value, and what stands behind this. -/
def showing (attrs : List Attr) (value : String) (rest : List Node) : Node :=
  let word (localName : String) : QName := ⟨some Namespace.word, some "w", localName⟩
  .element (word "document") attrs
    [.element (word "body") []
      (.element (word "p") []
        [.element (word "r") [] [.element (word "t") [] [.text value]]] :: rest)]

section TwoParts

variable {root : Node}

/-- Where a part is does not depend on what is in the main part. -/
private theorem find?_twoParts (root : Node) (name : String) :
    (twoParts root).find? name = (twoParts noTypes).find? name := find?_congr rfl name

/-- The two parts are where they are put, and no part has relationships. -/
private theorem places_twoParts (root : Node) :
    (twoParts root).find? ContentTypes.partName = some 0 ∧
      (twoParts root).find? usualMainPart = some 1 ∧
      (twoParts root).find? (PartName.relationshipsOf usualMainPart) = none ∧
      (twoParts root).find? (PartName.relationshipsOf "") = none := by
  simp only [find?_twoParts root]
  decide +kernel

theorem get?_twoParts (root : Node) :
    (twoParts root).get? usualMainPart = some root.toBytes ∧
      (twoParts root).get? ContentTypes.partName = some noTypes.toBytes := by
  rcases places_twoParts root with ⟨types, main, -, -⟩
  constructor
  · rw [get?, main]
    rfl
  · rw [get?, types]
    rfl

private theorem unrelated_twoParts (root : Node) :
    (twoParts root).has (PartName.relationshipsOf usualMainPart) = false := by
  rw [has, (places_twoParts root).2.2.1]
  rfl

theorem mainPart_twoParts (root : Node) : (twoParts root).mainPart = .ok usualMainPart := by
  rcases places_twoParts root with ⟨-, main, -, unrelated⟩
  rw [mainPart, relationships, has, unrelated, has, main]
  simp only [Option.isSome_none, Option.isSome_some, Bool.false_eq_true, if_false, if_true, bind,
    Except.bind, List.find?_nil, Option.bind_none, Option.filter_none]
  rfl

theorem readBytes_noTypes : readBytes noTypes.toBytes = .ok noTypes :=
  readBytes_of_outline (by decide +kernel)

theorem legalText_noTypes : LegalText noTypes.toDocument := by
  decide +kernel

theorem ready_twoParts (canonical : readBytes root.toBytes = .ok root)
    (legal : LegalText root.toDocument)
    (below : ∀ child ∈ root.children, EveryLabel (fun label => declarations label.attrs = []) child)
    (word : Declares root.attrs Namespace.word) (reserved : NoReserved root.attrs)
    (references : BindsReferences root.attrs ∨
      ¬ Declares root.attrs Namespace.relationshipReference ∧
        ∀ declared ∈ declarations root.attrs, declared.1 ≠ "r") :
    ReadyForChunks (twoParts root) usualMainPart root noTypes := by
  rcases get?_twoParts root with ⟨isMain, isTypes⟩
  rcases places_twoParts root with ⟨atTypes, atMain, unrelated, -⟩
  have ofMain : ∀ content ∈ (twoParts root).get? usualMainPart, LegalNames content := by
    rw [isMain]
    rintro _ ⟨⟩
    exact legalNames_toBytes legal
  constructor
  case toMainReady =>
    exact ⟨mainPart_twoParts root, document_of_get? isMain canonical, ofMain, below, word, reserved,
      references⟩
  case typesPart =>
    exact entryPart_of_canonical isTypes readBytes_noTypes legalText_noTypes ⟨_, rfl, rfl⟩
      (by decide)
  case entries => exact List.forall_mem_nil _
  case related =>
    rw [unrelated_twoParts]
    exact nofun
  case notTypes =>
    rintro index found same
    rw [atMain] at found
    rw [atTypes] at same
    exact absurd (found.trans same.symm) (by decide)
  case notRelationships =>
    rw [unrelated]
    exact nofun

theorem spells_twoParts (only : OnlyDeclarations root.attrs)
    (avoided : ¬ Declares root.attrs Namespace.relationshipReference →
      EveryLabel (Label.Avoids "r") root) :
    SpellsChunks (twoParts root) usualMainPart root noTypes := by
  refine ⟨⟨only, avoided⟩, by decide, ?_⟩
  intro related holds
  rcases exists_find?_of_document holds with ⟨index, found⟩
  have absent := unrelated_twoParts root
  rw [has, found] at absent
  cases absent

end TwoParts

/-! ## Runs over all values -/

/-- Where the main part is read back as it is written, embedding values puts a chunk in the place
of the first paragraph that shows each of them, relates it to a new part with the value, and
changes nothing else. -/
theorem embedChunks_run {root types : Node} (ready : ReadyForChunks package main root types)
    (canonical : readBytes root.toBytes = .ok root) (spells : SpellsChunks package main root types)
    (queue : ChunkQueue) (idStem : String) :
    ∃ result after, (embedChunks queue idStem).on package = (result, after) ∧
      EmbedRun main idStem 1 queue.values package result after := by
  have takes := ready.takesChunks spells
  have kept : MainKeepsTexts main package := by
    have same : root.reread = root := by
      have read := (ready.hostsChunks spells.toSpellsReferences).readBytes_eq_reread
      exact Except.ok.inj (read.symm.trans canonical)
    intro known isKnown
    rw [ready.holds, Except.ok.injEq] at isKnown
    rw [← isKnown, ← same]
    exact keepsTexts_reread
  rcases takes.exists_embedRun kept idStem 1 queue.values with ⟨result, after, ran, run⟩
  exact ⟨result, after, (on_embedChunks ready.isMain queue idStem).trans ran, run⟩

def plainDocument : Node := showing [declarationFor Namespace.word "w"] "v" []

theorem canonical_plainDocument : readBytes plainDocument.toBytes = .ok plainDocument :=
  readBytes_of_outline (by decide +kernel)

theorem ready_plainDocument :
    ReadyForChunks (twoParts plainDocument) usualMainPart plainDocument noTypes :=
  ready_twoParts canonical_plainDocument (by decide +kernel) (by decide) ⟨"w", by decide⟩
    (by decide) (.inr ⟨by decide, by decide⟩)

theorem spells_plainDocument :
    SpellsChunks (twoParts plainDocument) usualMainPart plainDocument noTypes :=
  spells_twoParts (by decide) fun _ => by decide

/-- Of two values the first is shown. -/
theorem embedChunks_run_showing :
    ReadyForChunks (twoParts plainDocument) usualMainPart plainDocument noTypes ∧
      readBytes plainDocument.toBytes = .ok plainDocument ∧
      SpellsChunks (twoParts plainDocument) usualMainPart plainDocument noTypes ∧
      ∃ result after, (embedChunks ⟨["v", "u"]⟩ "c").on (twoParts plainDocument) =
          (result, after) ∧
        EmbedRun usualMainPart "c" 1 ["v", "u"] (twoParts plainDocument) result after :=
  ⟨ready_plainDocument, canonical_plainDocument, spells_plainDocument,
    embedChunks_run ready_plainDocument canonical_plainDocument spells_plainDocument ⟨["v", "u"]⟩
      "c"⟩

/-! ## Main parts that an embedded value changes elsewhere -/

section Refuted

variable {root types related actual : Node} {path : Path} {value idStem : String}

/-- The package after embedding one value that is shown. -/
theorem on_embedChunks_singleton (isMain : package.mainPart = .ok main)
    (holds : package.document main = .ok root)
    (typesAre : package.document ContentTypes.partName = .ok types)
    (found : root.findShowing? value = some path)
    (isRelated : package.relationshipPart main = .ok related)
    (free : ∀ old ∈ Relationship.allOf related, old.id ≠ idStem ++ toString 1) :
    (embedChunks ⟨[value]⟩ idStem).on package =
      (.ok 1, (stored package main (package.freshChunk main) (idStem ++ toString 1) value types
        related).setDocument main (root.putChunk path (idStem ++ toString 1))) := by
  have unused : ¬ ((Relationship.allOf related).any (·.id == idStem ++ toString 1)) = true := by
    simpa using free
  have step := on_embedChunk holds idStem 1 value
  rw [found] at step
  simp only [on_addChunkPart isRelated typesAre, if_neg unused] at step
  rw [on_embedChunks isMain, List.zipIdx_singleton, List.map_singleton, embedFrom, Edit.on_bind,
    step]
  rfl

/-- A run over one value that is shown puts its chunk where the value was shown. -/
private theorem EmbedRun.exists_chunk {known : List Relationship} {number : Nat}
    {result : Except Error Nat} {after : Package}
    (run : EmbedRun main idStem number [value] package result after)
    (holds : package.document main = .ok root) (shows : root.ShowsFirst value path)
    (isKnown : package.relationships main = .ok known)
    (free : ∀ old ∈ known, old.id ≠ idStem ++ toString number) :
    ∃ declared chunk, DeclaresReferences root declared ∧
      IsChunk (idStem ++ toString number) chunk ∧
      after.document main = .ok (declared.replaceAt path chunk) := by
  cases run with
  | refused step =>
      cases step with
      | refused _ _ isKnown' inUse =>
          rw [isKnown, Except.ok.injEq] at isKnown'
          rcases inUse with ⟨old, member, same⟩
          exact absurd same (free old (isKnown' ▸ member))
  | next step run =>
      cases run
      cases step with
      | skipped holds' hidden =>
          rw [holds, Except.ok.injEq] at holds'
          exact absurd shows.shows (holds' ▸ hidden path)
      | embedded embedded =>
          rcases embedded.document with
            ⟨root', path', declared, chunk, holds', shows', declares, isChunk, document⟩
          rw [holds, Except.ok.injEq] at holds'
          rw [← holds'] at declares shows'
          rw [← shows.eq shows'] at document
          exact ⟨declared, chunk, declares, isChunk, document⟩

/-- There is no run if the main part is not read back with the chunk and nothing else changed. -/
private theorem not_embedRun (ready : ReadyForChunks package main root types)
    (found : root.findShowing? value = some path)
    (isRelated : package.relationshipPart main = .ok related)
    (free : ∀ old ∈ Relationship.allOf related, old.id ≠ idStem ++ toString 1)
    (reread : readBytes (root.putChunk path (idStem ++ toString 1)).toBytes = .ok actual)
    (apart : ∀ declared chunk, DeclaresReferences root declared →
      IsChunk (idStem ++ toString 1) chunk → declared.replaceAt path chunk ≠ actual) :
    ¬ ∃ result after, (embedChunks ⟨[value]⟩ idStem).on package = (result, after) ∧
      EmbedRun main idStem 1 [value] package result after := by
  rintro ⟨result, after, ran, run⟩
  have isKnown := relationships_eq_ok_iff.2 ⟨related, isRelated, rfl⟩
  rcases run.exists_chunk ready.holds (showsFirst_of_findShowing? found) isKnown free with
    ⟨declared, chunk, declares, isChunk, document⟩
  rw [on_embedChunks_singleton ready.isMain ready.holds ready.typesPart.holds found isRelated
    free] at ran
  cases ran
  rw [setDocument, document_of_get? (get?_store _ _ _) reread, Except.ok.injEq] at document
  exact apart declared chunk declares isChunk document.symm

end Refuted

theorem relationshipPart_twoParts (root : Node) :
    (twoParts root).relationshipPart usualMainPart = .ok Relationship.emptyPart := by
  rw [relationshipPart, unrelated_twoParts]
  rfl

/-- An attribute in the namespace of declarations that declares nothing. -/
def posingAttrs : List Attr :=
  [declarationFor Namespace.declarations "z",
    ⟨⟨some Namespace.declarations, some "z", "u"⟩, Namespace.word⟩,
    declarationFor Namespace.word "w"]

def posingDocument : Node := showing posingAttrs "v" []

/-- Behind the value is an element with a qualifier that is not declared. -/
def strayDocument : Node :=
  showing [declarationFor Namespace.word "w"] "v" [.element ⟨none, some "r", "x"⟩ [] []]

/-- What is read back after embedding the value: the chunk, and what stands behind it. -/
def showingChunk (attrs : List Attr) (name : QName) (rest : List Node) : Node :=
  .element ⟨some Namespace.word, some "w", "document"⟩
    (attrs ++ [declarationFor Namespace.relationshipReference "r"])
    [.element ⟨some Namespace.word, some "w", "body"⟩ []
      (.element name
        [⟨⟨some Namespace.relationshipReference, some "r", "id"⟩, "c1"⟩] [] :: rest)]

/-- An attribute that only looks like a declaration gives the chunk a qualifier that is not
declared, and a declaration for references gives a namespace to names that had none. -/
theorem not_embedRun_showing :
    (ReadyForChunks (twoParts posingDocument) usualMainPart posingDocument noTypes ∧
      readBytes posingDocument.toBytes = .ok posingDocument ∧
      ¬ ∃ result after, (embedChunks ⟨["v"]⟩ "c").on (twoParts posingDocument) =
          (result, after) ∧
        EmbedRun usualMainPart "c" 1 ["v"] (twoParts posingDocument) result after) ∧
    (ReadyForChunks (twoParts strayDocument) usualMainPart strayDocument noTypes ∧
      readBytes strayDocument.toBytes = .ok strayDocument ∧
      ¬ ∃ result after, (embedChunks ⟨["v"]⟩ "c").on (twoParts strayDocument) =
          (result, after) ∧
        EmbedRun usualMainPart "c" 1 ["v"] (twoParts strayDocument) result after) := by
  constructor
  · have canonical : readBytes posingDocument.toBytes = .ok posingDocument :=
      readBytes_of_outline (by decide +kernel)
    have ready : ReadyForChunks (twoParts posingDocument) usualMainPart posingDocument noTypes :=
      ready_twoParts canonical (by decide +kernel) (by decide) ⟨"w", by decide⟩ (by decide)
        (.inr ⟨by decide, by decide⟩)
    have found : posingDocument.findShowing? "v" = some [0, 0] := by decide +kernel
    have reread : readBytes (posingDocument.putChunk [0, 0] "c1").toBytes =
        .ok (showingChunk posingAttrs ⟨none, some "u", "altChunk"⟩ []) :=
      readBytes_of_outline (by decide +kernel)
    refine ⟨ready, canonical, ?_⟩
    refine not_embedRun ready found (relationshipPart_twoParts _) nofun reread ?_
    rintro _ _ declares ⟨isChunk, _⟩ same
    have chunk := congrArg (·.at? [0, 0]) same
    cases declares with
    | before declares => exact absurd declares (by decide)
    | added =>
        cases chunk
        exact absurd isChunk (by decide)
  · have canonical : readBytes strayDocument.toBytes = .ok strayDocument :=
      readBytes_of_outline (by decide +kernel)
    have ready : ReadyForChunks (twoParts strayDocument) usualMainPart strayDocument noTypes :=
      ready_twoParts canonical (by decide +kernel) (by decide) ⟨"w", by decide⟩ (by decide)
        (.inr ⟨by decide, by decide⟩)
    have found : strayDocument.findShowing? "v" = some [0, 0] := by decide +kernel
    have reread : readBytes (strayDocument.putChunk [0, 0] "c1").toBytes =
        .ok (showingChunk [declarationFor Namespace.word "w"]
          ⟨some Namespace.word, some "w", "altChunk"⟩
          [.element ⟨some Namespace.relationshipReference, some "r", "x"⟩ [] []]) :=
      readBytes_of_outline (by decide +kernel)
    refine ⟨ready, canonical, ?_⟩
    refine not_embedRun ready found (relationshipPart_twoParts _) nofun reread ?_
    rintro _ _ declares _ same
    have element := congrArg (·.at? [0, 1]) same
    cases declares with
    | before declares => exact absurd declares (by decide)
    | added => cases element

end Package

end TemplateFill
