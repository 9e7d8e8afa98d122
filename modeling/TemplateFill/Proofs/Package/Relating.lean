import TemplateFill.Proofs.Package.Adding

/-!
# Adding relationships

A relationship comes behind those that its source has, unless these cannot be read or one of them
has its id; then nothing is stored.  Calls one after the other therefore keep what was there, also
when several of them mean one part by different names.
-/

namespace TemplateFill

open Markup Node Text

namespace Package

variable {package middle after : Package} {source other : String} {relationship : Relationship}

/-! ## What is refused -/

/-- Why a source takes no relationship with an id. -/
inductive RefusesRelationship (package : Package) (source id : String) : Error → Prop where
  | malformed {content : Bytes} {fault : Markup.Fault}
      (holds : package.get? (PartName.relationshipsOf source) = some content)
      (unread : readBytes content = .error fault) :
      RefusesRelationship package source id (.markup fault)
  | inUse {known : List Relationship} {old : Relationship}
      (isKnown : package.relationships source = .ok known) (member : old ∈ known)
      (same : old.id = id) :
      RefusesRelationship package source id (.relationshipInUse id)

/-- What is refused is refused before anything is stored. -/
theorem RefusesRelationship.on_addRelationship {error : Error}
    (refuses : RefusesRelationship package source relationship.id error) :
    (addRelationship source relationship).on package = (.error error, package) := by
  rw [Package.on_addRelationship]
  cases refuses with
  | malformed holds unread =>
      rw [relationshipPart_eq, holds]
      simp only [unread]
      rfl
  | @inUse known old isKnown member same =>
      rcases relationships_eq_ok_iff.1 isKnown with ⟨related, isRelated, rfl⟩
      have used : (Relationship.allOf related).any (·.id == relationship.id) = true := by
        simpa using ⟨old, member, same⟩
      rw [isRelated]
      simp only
      rw [if_pos used]

/-- What is not refused is added to the part with the relationships of the source. -/
theorem on_addRelationship_of_not_refuses
    (accepts : ∀ error, ¬ RefusesRelationship package source relationship.id error) :
    ∃ related, package.relationshipPart source = .ok related ∧
      (∀ old ∈ Relationship.allOf related, old.id ≠ relationship.id) ∧
      (addRelationship source relationship).on package =
        (.ok (), package.setDocument (PartName.relationshipsOf source)
          (Relationship.appendTo related relationship)) := by
  cases isRelated : package.relationshipPart source with
  | error error =>
      rw [relationshipPart_eq] at isRelated
      split at isRelated
      · cases isRelated
      · rename_i content holds
        cases read : readBytes content with
        | error fault => exact absurd (.malformed holds read) (accepts (.markup fault))
        | ok =>
            rw [read] at isRelated
            cases isRelated
  | ok related =>
      have isKnown := relationships_eq_ok_iff.2 ⟨related, isRelated, rfl⟩
      have free : ∀ old ∈ Relationship.allOf related, old.id ≠ relationship.id :=
        fun old member same => accepts _ (.inUse isKnown member same)
      have unused : ¬ (Relationship.allOf related).any (·.id == relationship.id) = true := by
        simpa using free
      refine ⟨related, rfl, free, ?_⟩
      rw [Package.on_addRelationship, isRelated]
      simp only
      rw [if_neg unused]

/-! ## What is added -/

/-- The relationships of a source, if they can be read, are entries of their namespace with legal
names. -/
def TakesRelationships (package : Package) (source : String) : Prop :=
  ∀ related, package.document (PartName.relationshipsOf source) = .ok related →
    EntryPart package (PartName.relationshipsOf source) Namespace.packageRelationships related

/-- What is found of the relationships of a source takes one more. -/
def ListsRelationships (package : Package) (source : String) : Prop :=
  ∀ related, package.relationshipPart source = .ok related →
    ListsIn Namespace.packageRelationships related

theorem TakesRelationships.lists (takes : TakesRelationships package source)
    (spells : SpellsRelationships package source) : ListsRelationships package source := by
  intro related isRelated
  rw [relationshipPart] at isRelated
  split at isRelated
  · exact (takes related isRelated).listsIn (spells related isRelated)
  · cases isRelated
    exact .emptyPart

/-- Whether two sources have their relationships in one part. -/
def sharesRelationships (package : Package) (source other : String) : Bool :=
  package.find? (PartName.relationshipsOf other) == package.find? (PartName.relationshipsOf source)

/-- The relationships that calls add for a source, under whatever name they mean it. -/
def addedTo (package : Package) (calls : List (String × Relationship)) (source : String) :
    List Relationship :=
  (calls.filter fun call => package.sharesRelationships call.1 source).map (·.2)

/-- All sources have the relationships of before and behind them those that were added; where no
id was there twice none is. -/
structure AppendsRelationships (added : String → List Relationship) (before after : Package) :
    Prop where
  appended : ∀ source known, before.relationships source = .ok known →
    after.relationships source = .ok (known ++ added source)
  distinct : ∀ source known, before.relationships source = .ok known →
    (known.map (·.id)).Nodup → ((known ++ added source).map (·.id)).Nodup

namespace AppendsRelationships

variable {added added' : String → List Relationship}

theorem refl (package : Package) : AppendsRelationships (fun _ => []) package package := by
  constructor
  · intro source known isKnown
    rw [List.append_nil, isKnown]
  · intro source known _ distinct
    rwa [List.append_nil]

theorem trans (first : AppendsRelationships added package middle)
    (second : AppendsRelationships added' middle after) :
    AppendsRelationships (fun source => added source ++ added' source) package after := by
  constructor
  · intro source known isKnown
    rw [second.appended source _ (first.appended source known isKnown), List.append_assoc]
  · intro source known isKnown distinct
    rw [← List.append_assoc]
    exact second.distinct source _ (first.appended source known isKnown)
      (first.distinct source known isKnown distinct)

end AppendsRelationships

theorem sharesRelationships_iff :
    package.sharesRelationships source other = true ↔
      package.find? (PartName.relationshipsOf other) =
        package.find? (PartName.relationshipsOf source) :=
  beq_iff_eq

theorem relationshipPart_congr (shares : package.sharesRelationships source other = true) :
    package.relationshipPart other = package.relationshipPart source := by
  rw [relationshipPart_eq, relationshipPart_eq, get?, get?, sharesRelationships_iff.1 shares]

section Stored

variable {related : Node} (lists : ListsIn Namespace.packageRelationships related)
  (stored : after = package.setDocument (PartName.relationshipsOf source)
    (Relationship.appendTo related relationship))

include lists stored

/-- The sources that share the part of a source have what is stored there, and the others have
what they had. -/
theorem relationshipPart_stored (other : String) :
    after.relationshipPart other =
      if after.sharesRelationships source other then
        .ok (Relationship.appendTo related relationship).reread
      else package.relationshipPart other := by
  have read := (lists.appendTo relationship).readBytes_eq_reread
  by_cases shares : after.sharesRelationships source other = true
  · rw [if_pos shares, relationshipPart_congr shares, stored]
    exact relationshipPart_of_get? (get?_store _ _ _) read
  · rw [if_neg shares, relationshipPart_eq, relationshipPart_eq, stored, setDocument, get?_set_eq,
      if_neg]
    rwa [sharesRelationships_iff, stored] at shares

/-- Whatever takes relationships takes more of them. -/
theorem listsRelationships_stored (others : ListsRelationships package other) :
    ListsRelationships after other := by
  intro root isRoot
  rw [relationshipPart_stored lists stored] at isRoot
  split at isRoot
  · cases isRoot
    exact (lists.appendTo relationship).reread
  · exact others root isRoot

variable (isRelated : package.relationshipPart source = .ok related)

include isRelated

/-- A relationship is added for all sources that share the part. -/
theorem relationships_stored (other : String) :
    after.relationships other = (package.relationships other).map
      (· ++ if after.sharesRelationships source other then [relationship] else []) := by
  rw [relationships_eq, relationships_eq, relationshipPart_stored lists stored]
  by_cases shares : after.sharesRelationships source other = true
  · have shared : package.sharesRelationships source other = true := by
      rw [sharesRelationships_iff, stored] at shares
      exact sharesRelationships_iff.2 (find?_eq_of_find?_set shares)
    rw [if_pos shares, if_pos shares, relationshipPart_congr shared, isRelated, Except.map,
      Except.map, Except.map, Relationship.allOf_reread_appendTo lists.isElement]
  · rw [if_neg shares, if_neg shares]
    cases package.relationshipPart other with
    | error => rfl
    | ok => exact congrArg Except.ok (List.append_nil _).symm

theorem appendsRelationships_stored
    (free : ∀ old ∈ Relationship.allOf related, old.id ≠ relationship.id) :
    AppendsRelationships (after.addedTo [(source, relationship)]) package after := by
  have added : ∀ other, after.addedTo [(source, relationship)] other =
      if after.sharesRelationships source other then [relationship] else [] := by
    intro other
    rw [addedTo, List.filter_singleton]
    cases after.sharesRelationships source other <;> rfl
  constructor
  · intro other known isKnown
    rw [relationships_stored lists stored isRelated, isKnown, added]
    rfl
  · intro other known isKnown distinct
    rw [added]
    split
    · rename_i shares
      rw [sharesRelationships_iff, stored] at shares
      have shared := sharesRelationships_iff.2 (find?_eq_of_find?_set shares)
      rcases relationships_eq_ok_iff.1 isKnown with ⟨root, isRoot, rfl⟩
      rw [relationshipPart_congr shared, isRelated] at isRoot
      cases isRoot
      rw [List.map_append, List.nodup_append]
      refine ⟨distinct, List.nodup_singleton _, ?_⟩
      intro id isOld new isNew
      rcases List.mem_map.1 isOld with ⟨old, member, rfl⟩
      rw [List.mem_singleton.1 isNew]
      exact free old member
    · rwa [List.append_nil]

end Stored

/-! ## Calls one after the other -/

/-- Relationships are added one after the other, up to the first that is refused. -/
def addRelationships : List (String × Relationship) → Edit Unit
  | [] => pure ()
  | (source, relationship) :: rest => do
      addRelationship source relationship
      addRelationships rest

/-- A call that succeeds was not refused. -/
theorem exists_of_on_addRelationship
    (ran : (addRelationship source relationship).on package = (.ok (), after)) :
    ∃ related, package.relationshipPart source = .ok related ∧
      (∀ old ∈ Relationship.allOf related, old.id ≠ relationship.id) ∧
      after = package.setDocument (PartName.relationshipsOf source)
        (Relationship.appendTo related relationship) := by
  by_cases refused : ∃ error, RefusesRelationship package source relationship.id error
  · rcases refused with ⟨error, refuses⟩
    rw [refuses.on_addRelationship] at ran
    cases ran
  · rcases on_addRelationship_of_not_refuses (not_exists.1 refused) with
      ⟨related, isRelated, free, ran'⟩
    rw [ran'] at ran
    cases ran
    exact ⟨related, isRelated, free, rfl⟩

variable {calls rest : List (String × Relationship)}

theorem on_addRelationships_cons (call : String × Relationship)
    (rest : List (String × Relationship)) (package : Package) :
    (addRelationships (call :: rest)).on package =
      match (addRelationship call.1 call.2).on package with
      | (.ok (), middle) => (addRelationships rest).on middle
      | (.error error, after) => (.error error, after) := by
  rw [addRelationships, Edit.on_bind]
  rcases (addRelationship call.1 call.2).on package with ⟨_ | _, _⟩ <;> rfl

/-- Where calls succeed, the first of them does, and the others do after it. -/
theorem exists_on_addRelationships {call : String × Relationship}
    (ran : (addRelationships (call :: rest)).on package = (.ok (), after)) :
    ∃ middle, (addRelationship call.1 call.2).on package = (.ok (), middle) ∧
      (addRelationships rest).on middle = (.ok (), after) := by
  rw [on_addRelationships_cons] at ran
  rcases first : (addRelationship call.1 call.2).on package with ⟨_ | _, middle⟩
  · rw [first] at ran
    cases ran
  · rw [first] at ran
    exact ⟨middle, rfl, ran⟩

/-- Calls that succeed store in no parts but those with the relationships of their sources. -/
theorem exists_grows_addRelationships
    (ran : (addRelationships calls).on package = (.ok (), after)) :
    ∃ added, Grows (calls.map (PartName.relationshipsOf ·.1)) package after added := by
  induction calls generalizing package with
  | nil =>
      cases ran
      exact ⟨[], (List.append_nil _).symm, List.forall_mem_nil _, fun _ _ _ => rfl⟩
  | cons call rest ih =>
      rcases exists_on_addRelationships ran with ⟨middle, first, ran⟩
      rcases exists_of_on_addRelationship first with ⟨related, -, -, rfl⟩
      rcases ih ran with ⟨added, more⟩
      exact ⟨_, (grows_store package _ _).trans more⟩

/-- Sources that share a part that is there share it for good, and no other source comes to. -/
theorem Grows.sharesRelationships_eq {touched added : List String} {index : Nat}
    (grows : Grows touched package after added)
    (found : package.find? (PartName.relationshipsOf source) = some index) (other : String) :
    after.sharesRelationships source other = package.sharesRelationships source other := by
  rw [Bool.eq_iff_iff, sharesRelationships_iff, sharesRelationships_iff, found,
    grows.find?_eq found, grows.find?_iff _ (lt_of_find? found)]

/-- After calls that succeed, all sources have the relationships of before and, in the order of
the calls, those that were added for them. -/
theorem appendsRelationships_addRelationships
    (ran : (addRelationships calls).on package = (.ok (), after))
    (lists : ∀ call ∈ calls, ListsRelationships package call.1) :
    AppendsRelationships (after.addedTo calls) package after := by
  induction calls generalizing package with
  | nil =>
      cases ran
      exact .refl _
  | cons call rest ih =>
      rcases call with ⟨source, relationship⟩
      rcases List.forall_mem_cons.1 lists with ⟨own, others⟩
      rcases exists_on_addRelationships ran with ⟨middle, first, ran⟩
      rcases exists_of_on_addRelationship first with ⟨related, isRelated, free, stored⟩
      have listsRelated := own related isRelated
      have one := appendsRelationships_stored listsRelated stored isRelated free
      have more := ih ran fun call member =>
        listsRelationships_stored listsRelated stored (others call member)
      -- The part of the first call is there from now on, so who shares it is settled.
      have found : ∃ index, middle.find? (PartName.relationshipsOf source) = some index := by
        rw [stored, ← Option.isSome_iff_exists, ← has, has_eq_true_iff, setDocument, get?_store]
        rfl
      rcases found with ⟨index, found⟩
      rcases exists_grows_addRelationships ran with ⟨added, grows⟩
      have all : after.addedTo ((source, relationship) :: rest) = fun other =>
          middle.addedTo [(source, relationship)] other ++ after.addedTo rest other := by
        funext other
        rw [← List.singleton_append, addedTo, addedTo, addedTo, List.filter_append,
          List.map_append, List.filter_singleton, List.filter_singleton,
          grows.sharesRelationships_eq found]
      rw [all]
      exact one.trans more

/-- A source refuses a relationship, and then the package is as it was, or it has one more, and no
other part has changed; calls one after the other keep the relationships of all sources. -/
theorem addRelationships_outcome (package : Package) :
    (∀ source relationship,
      (∃ error, RefusesRelationship package source relationship.id error ∧
        (addRelationship source relationship).on package = (.error error, package)) ∨
      ((∀ error, ¬ RefusesRelationship package source relationship.id error) ∧
        ∃ after, (addRelationship source relationship).on package = (.ok (), after) ∧
          Grows [PartName.relationshipsOf source] package after
            (if package.has (PartName.relationshipsOf source) then []
              else [PartName.bare (PartName.relationshipsOf source)]) ∧
          (TakesRelationships package source → SpellsRelationships package source →
            ∃ known, package.relationships source = .ok known ∧
              after.relationships source = .ok (known ++ [relationship])))) ∧
    ∀ calls after, (addRelationships calls).on package = (.ok (), after) →
      (∀ call ∈ calls, TakesRelationships package call.1 ∧ SpellsRelationships package call.1) →
      AppendsRelationships (after.addedTo calls) package after := by
  constructor
  · intro source relationship
    by_cases refused : ∃ error, RefusesRelationship package source relationship.id error
    · rcases refused with ⟨error, refuses⟩
      exact .inl ⟨error, refuses, refuses.on_addRelationship⟩
    · right
      rw [not_exists] at refused
      rcases on_addRelationship_of_not_refuses refused with ⟨related, isRelated, free, ran⟩
      refine ⟨refused, _, ran, grows_store package _ _, fun takes spells => ?_⟩
      have lists := takes.lists spells related isRelated
      have isKnown := relationships_eq_ok_iff.2 ⟨related, isRelated, rfl⟩
      refine ⟨_, isKnown, ?_⟩
      rw [relationships_stored lists rfl isRelated, isKnown,
        if_pos (sharesRelationships_iff.2 rfl)]
      rfl
  · intro calls after ran takes
    exact appendsRelationships_addRelationships ran fun call member =>
      (takes call member).1.lists (takes call member).2

/-! ## Relationships of a main part -/

section ThreeParts

variable {related root : Node}
  (third : (threeParts noTypes).find? (PartName.relationshipsOf source) = some 2)

include third

private theorem get?_third (related : Node) :
    (threeParts related).get? (PartName.relationshipsOf source) = some related.toBytes := by
  rw [get?, find?_threeParts, third]
  rfl

theorem takesRelationships_threeParts (canonical : readBytes related.toBytes = .ok related)
    (legal : LegalText related.toDocument)
    (named : ∃ inner ∈ related.name?, inner.ns = some Namespace.packageRelationships)
    (reserved : NoReserved related.attrs) : TakesRelationships (threeParts related) source := by
  intro root holds
  have entry : EntryPart _ _ _ related :=
    entryPart_of_canonical (get?_third third related) canonical legal named reserved
  rw [entry.holds] at holds
  cases holds
  exact entry

theorem relationships_threeParts (read : readBytes related.toBytes = .ok root) :
    (threeParts related).relationships source = .ok (Relationship.allOf root) :=
  relationships_eq_ok_iff.2
    ⟨root, relationshipPart_of_get? (get?_third third related) read, rfl⟩

/-- In a package of three parts one relationship more is stored in the third. -/
theorem on_addRelationship_threeParts (read : readBytes related.toBytes = .ok root)
    (free : ∀ old ∈ Relationship.allOf root, old.id ≠ relationship.id) :
    (addRelationship source relationship).on (threeParts related) =
      (.ok (), threeParts (Relationship.appendTo root relationship)) := by
  have unused : ¬ (Relationship.allOf root).any (·.id == relationship.id) = true := by
    simpa using free
  rw [on_addRelationship, relationshipPart_of_get? (get?_third third related) read]
  simp only
  rw [if_neg unused, setDocument, set_eq ((find?_threeParts related _).trans third)]
  rfl

end ThreeParts

/-- A call for a chunk next to the main part. -/
def chunkCall : String × Relationship :=
  (usualMainPart, chunkRelationship usualMainPart "word/afchunk1.xhtml" "c")

/-- A call for something outside the package that means the main part by another name. -/
def outsideCall : String × Relationship :=
  ("/Word/Document.xml", ⟨"b", "urn:<b>", "http://b/?x=\"1\"&y", true⟩)

/-- Both calls add to the relationships of the main part, and then their ids are in use. -/
theorem addRelationships_outcome_bothCalls :
    (∀ call ∈ [chunkCall, outsideCall],
      TakesRelationships (threeParts Relationship.emptyPart) call.1 ∧
        SpellsRelationships (threeParts Relationship.emptyPart) call.1) ∧
    ∃ after, (addRelationships [chunkCall, outsideCall]).on (threeParts Relationship.emptyPart) =
        (.ok (), after) ∧
      after.relationships "word/DOCUMENT.xml" = .ok [chunkCall.2, outsideCall.2] ∧
      (addRelationship "word/DOCUMENT.xml" chunkCall.2).on after =
        (.error (.relationshipInUse "c"), after) := by
  have canonical : readBytes Relationship.emptyPart.toBytes = .ok Relationship.emptyPart :=
    readBytes_of_outline (by decide +kernel)
  have third : ∀ source ∈ [chunkCall.1, outsideCall.1, "word/DOCUMENT.xml"],
      (threeParts noTypes).find? (PartName.relationshipsOf source) = some 2 := by
    decide +kernel
  have takes : ∀ call ∈ [chunkCall, outsideCall],
      TakesRelationships (threeParts Relationship.emptyPart) call.1 ∧
        SpellsRelationships (threeParts Relationship.emptyPart) call.1 := by
    intro call member
    have third' := third call.1 (List.mem_append_left ["word/DOCUMENT.xml"]
      (List.mem_map_of_mem member : call.1 ∈ [chunkCall, outsideCall].map (·.1)))
    refine ⟨takesRelationships_threeParts third' canonical (by decide +kernel) ⟨_, rfl, rfl⟩
      (by decide), ?_⟩
    intro related holds
    rw [document_of_get? (get?_third third' _) canonical] at holds
    cases holds
    decide
  have lists := ListsIn.emptyPart.appendTo chunkCall.2
  have free : ∀ old ∈ Relationship.allOf
      (Relationship.appendTo Relationship.emptyPart chunkCall.2).reread,
      old.id ≠ outsideCall.2.id := by
    rw [Relationship.allOf_reread_appendTo rfl]
    decide
  have ran : (addRelationships [chunkCall, outsideCall]).on (threeParts Relationship.emptyPart) =
      (.ok (), threeParts (Relationship.appendTo
        (Relationship.appendTo Relationship.emptyPart chunkCall.2).reread outsideCall.2)) := by
    rw [on_addRelationships_cons,
      on_addRelationship_threeParts (third chunkCall.1 (by decide)) canonical nofun]
    simp only
    rw [on_addRelationships_cons, on_addRelationship_threeParts
      (third outsideCall.1 (by decide)) lists.readBytes_eq_reread free]
    rfl
  have before := relationships_threeParts (third "word/DOCUMENT.xml" (by decide)) canonical
  have appended :=
    ((addRelationships_outcome (threeParts Relationship.emptyPart)).2 _ _ ran takes).appended
      "word/DOCUMENT.xml" _ before
  have added : ∀ related, (threeParts related).addedTo [chunkCall, outsideCall]
      "word/DOCUMENT.xml" = [chunkCall.2, outsideCall.2] := by
    intro related
    simp only [addedTo, sharesRelationships, find?_threeParts related]
    decide +kernel
  rw [added] at appended
  have among : chunkCall.2 ∈ [chunkCall.2, outsideCall.2] := by decide
  have inUse := RefusesRelationship.inUse appended (List.mem_append_right _ among) rfl
  exact ⟨takes, _, ran, appended, inUse.on_addRelationship⟩

/-- The relationship is spelled with the qualifier that only looks declared, and is lost. -/
theorem not_appended_posingRelationships :
    TakesRelationships (threeParts posingRelationships) usualMainPart ∧
      ∃ after, (addRelationship usualMainPart chunkCall.2).on (threeParts posingRelationships) =
          (.ok (), after) ∧
        after.relationships usualMainPart = .ok [] ∧
        ¬ ∃ known, (threeParts posingRelationships).relationships usualMainPart = .ok known ∧
          after.relationships usualMainPart = .ok (known ++ [chunkCall.2]) := by
  have canonical : readBytes posingRelationships.toBytes = .ok posingRelationships :=
    readBytes_of_outline (by decide +kernel)
  have reread : readBytes (Relationship.appendTo posingRelationships chunkCall.2).toBytes =
      .ok strayRelationship :=
    readBytes_of_outline (by decide +kernel)
  have third : (threeParts noTypes).find? (PartName.relationshipsOf usualMainPart) = some 2 := by
    decide +kernel
  have lost := relationships_threeParts third reread
  refine ⟨takesRelationships_threeParts third canonical (by decide +kernel) ⟨_, rfl, rfl⟩
    (by decide), _, on_addRelationship_threeParts third canonical nofun, lost, ?_⟩
  rintro ⟨known, -, appended⟩
  rw [lost] at appended
  exact List.cons_ne_nil _ _ (List.append_eq_nil_iff.1 (Except.ok.inj appended).symm).2

end Package

end TemplateFill
