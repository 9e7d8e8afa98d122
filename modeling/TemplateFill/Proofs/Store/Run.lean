import TemplateFill.Proofs.Markup.ReadTexts
import TemplateFill.Proofs.Store.Reading
import TemplateFill.Proofs.Store.Replacement
import TemplateFill.Store.Operation

/-!
# Sequences of operations

An operation that is allowed keeps a store well formed, and of what was there it changes only
the children of one parent, the links of these, and what is declared at the root.  So does
every step of a sequence.
-/

namespace TemplateFill

open Relation

namespace NodeStore

variable {store before after : NodeStore} {id parent : NodeId} {children tops : List NodeId}

/-! ## What is allowed -/

/-- A node can be put below `parent`: it is detached, and neither `parent` nor above it. -/
structure Attachable (store : NodeStore) (parent id : NodeId) : Prop where
  inRange : id < store.size
  detached : store.parent? id = none
  other : id ≠ parent
  notAbove : id ∉ store.ancestors parent

instance (store : NodeStore) (parent id : NodeId) : Decidable (store.Attachable parent id) :=
  decidable_of_iff (id < store.size ∧ store.parent? id = none ∧ id ≠ parent ∧
      id ∉ store.ancestors parent)
    ⟨fun ⟨inRange, detached, other, notAbove⟩ => ⟨inRange, detached, other, notAbove⟩,
      fun ⟨inRange, detached, other, notAbove⟩ => ⟨inRange, detached, other, notAbove⟩⟩

/-- What an operation asks of its arguments. -/
def Allowed (store : NodeStore) : StoreOperation → Prop
  | .alloc _ | .declare _ _ => True
  | .append parent child => parent < store.size ∧ store.Attachable parent child
  | .insertAfter sibling id =>
      sibling < store.size ∧
        ∀ parent, store.parent? sibling = some parent → store.Attachable parent id
  | .setChildren parent children =>
      parent < store.size ∧ children.Nodup ∧ ∀ child ∈ children,
        store.Attachable parent child ∨ store.parent? child = some parent
  | .detach id | .duplicate id => id < store.size
  | .importFrom source id => source.WellFormed ∧ id < source.size
  | .replaceRange pair => ∃ name, store.locate name = .ok pair

/-- All operations of a sequence are allowed, each where the ones before it have led. -/
def AllowedRun (store : NodeStore) : List StoreOperation → Prop
  | [] => True
  | operation :: rest =>
      store.Allowed operation ∧ ∀ next ∈ operation.apply store, next.AllowedRun rest

/-! ## What is kept -/

/-- What an operation leaves of a store: it is well formed; nodes keep their labels, but for what
is declared at the root; only the affected parent gets other children, and only the links of its
old and new children change. -/
structure Keeps (operation : StoreOperation) (before after : NodeStore) : Prop where
  wellFormed : after.WellFormed
  grows : before.size ≤ after.size
  root_eq : after.root = before.root
  labels : ∀ id < before.size, after.label id = before.label id ∨
    (∃ ns qualifier, operation = .declare ns qualifier) ∧ id = before.root ∧
      ∃ name attrs attrs', before.label id = .element name attrs ∧
        after.label id = .element name attrs'
  lists : ∀ id < before.size, operation.parent? before ≠ some id →
    after.children id = before.children id
  links : ∀ id < before.size, (∀ parent ∈ operation.parent? before,
    id ∉ before.children parent ∧ id ∉ after.children parent) →
      after.parent? id = before.parent? id

/-- Each operation of a sequence gives a store, of which it keeps what it has to keep. -/
def KeepsAll (store : NodeStore) : List StoreOperation → Prop
  | [] => True
  | operation :: rest =>
      ∃ next, operation.apply store = some next ∧ Keeps operation store next ∧ next.KeepsAll rest

/-! ## One step -/

section Step

variable {operation : StoreOperation}

/-- An operation that only adds nodes. -/
theorem Adds.keeps (adds : Adds before after tops) (operation : StoreOperation) :
    Keeps operation before after where
  wellFormed := adds.wellFormed
  grows := adds.grows
  root_eq := adds.root_eq
  labels id used := .inl (congrArg Slot.label (adds.kept id used))
  lists id used _ := congrArg Slot.children (adds.kept id used)
  links id used _ := congrArg Slot.parent (adds.kept id used)

/-- An operation that may add nodes, and then gives the affected parent other children. -/
theorem Adds.keeps_setChildren (adds : Adds before store tops)
    (affects : operation.parent? before = some parent) (used : parent < before.size)
    (adopts : store.Adopts parent children) :
    Keeps operation before (store.setChildren parent children) where
  wellFormed := adds.wellFormed.setChildren adopts
  grows := by
    rw [size_setChildren]
    exact adds.grows
  root_eq := (root_setChildren ..).trans adds.root_eq
  labels id used := .inl ((label_setChildren ..).trans (congrArg Slot.label (adds.kept id used)))
  lists id used other := by
    have other : id ≠ parent := fun same => other (affects.trans (congrArg some same.symm))
    rw [children_setChildren adopts.parentInRange, if_neg other]
    exact congrArg Slot.children (adds.kept id used)
  links id used' apart := by
    have apart := apart parent affects
    have same : store.children parent = before.children parent :=
      congrArg Slot.children (adds.kept parent used)
    rw [children_setChildren adopts.parentInRange, if_pos rfl] at apart
    rw [adds.wellFormed.parent?_setChildren adopts.inRange, if_neg apart.2, same, if_neg apart.1]
    exact congrArg Slot.parent (adds.kept id used')

/-- A declaration changes the label of the root only, and of this only the attributes. -/
theorem WellFormed.keeps_declare (wellFormed : store.WellFormed) (ns qualifier : String) :
    Keeps (.declare ns qualifier) store (store.declare ns qualifier) := by
  have slots : ∀ id, (store.declare ns qualifier).slot id = store.slot id ∨ id = store.root ∧
      ∃ name attrs, store.slot id = ⟨.element name attrs, store.parent? id, store.children id⟩ ∧
        (store.declare ns qualifier).slot id =
          ⟨.element name (declareNamespace attrs ns qualifier), store.parent? id,
            store.children id⟩ := by
    intro id
    rw [NodeStore.declare, slot_update]
    split
    case isFalse => exact .inl rfl
    case isTrue isRoot =>
      rcases isRoot with ⟨rfl, -⟩
      rw [parent?, NodeStore.children]
      rcases store.slot store.root with ⟨label, link, below⟩
      cases label with
      | element name attrs => exact .inr ⟨rfl, name, attrs, rfl, rfl⟩
      | text _ | comment _ => exact .inl rfl
  have parents : ∀ id, (store.declare ns qualifier).parent? id = store.parent? id := by
    intro id
    rcases slots id with same | ⟨-, _, _, -, changed⟩
    · exact congrArg Slot.parent same
    · rw [parent?, changed]
  have lists : ∀ id, (store.declare ns qualifier).children id = store.children id := by
    intro id
    rcases slots id with same | ⟨-, _, _, -, changed⟩
    · exact congrArg Slot.children same
    · rw [NodeStore.children, changed]
  refine ⟨wellFormed.congr parents lists, Nat.le_of_eq (size_update ..).symm, rfl, ?_,
    fun id _ _ => lists id, fun id _ _ => parents id⟩
  intro id used
  rcases slots id with same | ⟨isRoot, name, attrs, before, after⟩
  · exact .inl (congrArg Slot.label same)
  · exact .inr ⟨⟨ns, qualifier, rfl⟩, isRoot, name, attrs, _, congrArg Slot.label before,
      congrArg Slot.label after⟩

/-- A node is not above one that it can be put below. -/
theorem Attachable.not_below (attachable : store.Attachable parent id)
    (wellFormed : store.WellFormed) : ¬ store.Below parent id := by
  intro below
  rcases below.cases_head with same | ⟨_, step, rest⟩
  · exact attachable.other same.symm
  · exact attachable.notAbove (wellFormed.mem_ancestors_iff.2 (.head' step rest))

/-- A parent can take its own children and nodes that can be put below it. -/
theorem WellFormed.adopts_of_attachable (wellFormed : store.WellFormed)
    (parentInRange : parent < store.size) (nodup : children.Nodup)
    (members : ∀ child ∈ children,
      store.Attachable parent child ∨ store.parent? child = some parent) :
    store.Adopts parent children := by
  refine wellFormed.adopts parentInRange nodup fun child member => ?_
  rcases members child member with attachable | linked
  · exact .inr ⟨attachable.inRange, attachable.detached, attachable.not_below wellFormed⟩
  · exact .inl ((wellFormed.linked parent child).2 linked)

/-- A parent can take one more child. -/
theorem Attachable.adopts_cons (attachable : store.Attachable parent id)
    (wellFormed : store.WellFormed) (parentInRange : parent < store.size)
    (perm : children.Perm (id :: store.children parent)) : store.Adopts parent children := by
  refine wellFormed.adopts_of_attachable parentInRange (perm.nodup_iff.2 ?_) fun child member => ?_
  · refine List.nodup_cons.2 ⟨fun member => ?_, wellFormed.nodup parent⟩
    have linked := (wellFormed.linked parent id).1 member
    rw [attachable.detached] at linked
    cases linked
  · rcases List.mem_cons.1 (perm.mem_iff.1 member) with rfl | member
    · exact .inl attachable
    · exact .inr ((wellFormed.linked parent child).1 member)

/-- An operation that is allowed gives a store, and keeps of the one before what it has to. -/
theorem WellFormed.keeps_of_allowed (wellFormed : store.WellFormed)
    (allowed : store.Allowed operation) :
    ∃ next, operation.apply store = some next ∧ Keeps operation store next := by
  have start := Adds.refl wellFormed
  cases operation with
  | alloc label => exact ⟨_, rfl, (Adds.alloc wellFormed label).keeps _⟩
  | append parent child =>
      rcases allowed with ⟨used, attachable⟩
      refine ⟨_, rfl, ?_⟩
      rw [wellFormed.append_eq used attachable.inRange]
      exact start.keeps_setChildren rfl used
        (attachable.adopts_cons wellFormed used (List.perm_append_singleton _ _))
  | insertAfter sibling id =>
      refine ⟨_, rfl, ?_⟩
      cases linked : store.parent? sibling with
      | none =>
          rw [NodeStore.insertAfter, linked]
          exact start.keeps _
      | some parent =>
          have attachable := allowed.2 parent linked
          have used := wellFormed.parentInRange _ _ linked
          rw [wellFormed.insertAfter_eq linked attachable.inRange]
          exact start.keeps_setChildren linked used
            (attachable.adopts_cons wellFormed used (perm_insertBehind ..))
  | setChildren parent children =>
      rcases allowed with ⟨used, nodup, members⟩
      exact ⟨_, rfl, start.keeps_setChildren rfl used
        (wellFormed.adopts_of_attachable used nodup members)⟩
  | detach id =>
      refine ⟨_, rfl, ?_⟩
      cases linked : store.parent? id with
      | none =>
          rw [NodeStore.detach, linked]
          exact start.keeps _
      | some parent =>
          have used := wellFormed.parentInRange _ _ linked
          rw [wellFormed.detach_eq linked]
          refine start.keeps_setChildren linked used (wellFormed.adopts_of_attachable used
            ((wellFormed.nodup parent).filter _) fun child member => ?_)
          exact .inr ((wellFormed.linked parent child).1 (List.mem_filter.1 member).1)
  | duplicate id =>
      refine ⟨_, rfl, ?_⟩
      rw [wellFormed.duplicate_eq]
      exact (adds_graft _ wellFormed).1.keeps _
  | importFrom source id =>
      refine ⟨_, rfl, ?_⟩
      rw [importFrom_eq]
      exact (adds_graft _ wellFormed).1.keeps _
  | declare ns qualifier => exact ⟨_, rfl, wellFormed.keeps_declare ns qualifier⟩
  | replaceRange pair =>
      rcases allowed with ⟨name, located⟩
      rcases wellFormed.replaceRange_of_locate located with
        ⟨added, placeholder, children, replaced, adds, adopts⟩
      have used := wellFormed.parentInRange _ _ (siblings_of_locate located).2.1
      exact ⟨_, congrArg (Option.map Prod.fst) replaced, adds.keeps_setChildren rfl used adopts⟩

end Step

/-! ## Sequences -/

/-- Every step of an allowed sequence keeps what it has to keep. -/
theorem WellFormed.keepsAll_of_allowedRun {operations : List StoreOperation}
    (wellFormed : store.WellFormed) (allowed : store.AllowedRun operations) :
    store.KeepsAll operations := by
  induction operations generalizing store with
  | nil => trivial
  | cons operation rest ih =>
      rcases allowed with ⟨first, others⟩
      rcases wellFormed.keeps_of_allowed first with ⟨next, applied, keeps⟩
      exact ⟨next, applied, keeps, ih keeps.wellFormed (others next applied)⟩

/-- Stores are well formed throughout: what readers and passes return is so, with a root without
a parent, and every step of a sequence of operations leaves a store so and keeps what is not its
own to change.  A `NodeId` is not bounded: where ids have 32 bits this speaks of readings, passes
and sequences whose stores fit, with at most `2 ^ 32` nodes at every step. -/
theorem wellFormed_throughout :
    (∀ bytes store, NodeStore.readBytes bytes = .ok store → store.WellRooted) ∧
    (∀ text store, NodeStore.readText text = .ok store → store.WellRooted) ∧
    (∀ source : NodeStore, source.WellFormed →
      source.flatten.WellRooted ∧ source.regroup.WellRooted ∧
        (∀ text, (source.resolvePlaceholders text).WellRooted) ∧
        source.wrapBodyRuns.WellRooted) ∧
    (∀ (store : NodeStore) (operations : List StoreOperation),
      store.WellFormed → store.AllowedRun operations → store.KeepsAll operations) := by
  refine ⟨fun bytes store read => ?_, fun text store read => ?_, fun source _ => ?_,
    fun store operations wellFormed allowed => wellFormed.keepsAll_of_allowedRun allowed⟩
  · rcases represents_of_readBytes read with ⟨_, -, represents⟩
    exact represents.toWellRooted
  · rcases represents_of_readText read with ⟨_, -, represents⟩
    exact represents.toWellRooted
  · exact ⟨wellRooted_flatten source, wellRooted_regroup source,
      wellRooted_resolvePlaceholders source, wellRooted_wrapBodyRuns source⟩

/-! ## A marked paragraph -/

/-- A paragraph with a run between two markers. -/
def marked : NodeStore :=
  .ofNode (.element (QName.ofTerm Term.paragraph) [] [
    .element ⟨some Namespace.word, some "w", "bookmarkStart"⟩
      [⟨QName.ofTerm Term.markerName, "t"⟩, ⟨QName.ofTerm Term.markerId, "7"⟩] [],
    .element (QName.ofTerm Term.run) [] [],
    .element ⟨some Namespace.word, some "w", "bookmarkEnd"⟩
      [⟨QName.ofTerm Term.markerId, "7"⟩] []])

theorem locate_marked : marked.locate "t" = .ok ⟨1, 3, 0⟩ := by
  have found : (marked.locate "t").toOption = some ⟨1, 3, 0⟩ := by decide +kernel
  cases located : marked.locate "t" with
  | error error =>
      rw [located] at found
      cases found
  | ok pair =>
      rw [located] at found
      exact congrArg Except.ok (Option.some.inj found)

/-- The run makes room for a placeholder and comes below it; then the placeholder moves away. -/
def markedEdits : List StoreOperation :=
  [.replaceRange ⟨1, 3, 0⟩, .append 4 2, .setChildren 0 [3, 4, 1], .detach 4]

theorem AllowedRun.cons {next : NodeStore} {operation : StoreOperation}
    {rest : List StoreOperation} (allowed : store.Allowed operation)
    (applied : operation.apply store = some next) (others : next.AllowedRun rest) :
    store.AllowedRun (operation :: rest) := by
  refine ⟨allowed, fun next' applied' => ?_⟩
  cases applied.symm.trans applied'
  exact others

theorem allowedRun_marked : marked.AllowedRun markedEdits :=
  .cons ⟨"t", locate_marked⟩ rfl <|
    .cons ⟨by decide, by decide⟩ rfl <|
      .cons ⟨by decide, by decide, by decide⟩ rfl <|
        .cons (show 4 < _ by decide) rfl trivial

/-- A document is read, the passes are made and the sequence is run. -/
theorem wellFormed_throughout_marked :
    (∃ store, NodeStore.readText "<a>x</a>".toList = .ok store ∧ store.WellRooted) ∧
      marked.flatten.regroup.WellRooted ∧ marked.KeepsAll markedEdits := by
  rcases wellFormed_throughout with ⟨-, texts, passes, runs⟩
  have wellFormed : marked.WellFormed := (represents_ofNode _).toWellFormed
  have read : Markup.readText "<a>x</a>".toList =
      .ok (.element ⟨none, none, "a"⟩ [] [.text "x"]) :=
    Markup.readText_of_outline (by decide +kernel)
  rcases exists_represents_of_readText read with ⟨store, isRead, -⟩
  have flat := (passes marked wellFormed).1
  exact ⟨⟨store, isRead, texts _ store isRead⟩, (passes _ flat.toWellFormed).2.1,
    runs marked markedEdits wellFormed allowedRun_marked⟩

end NodeStore

end TemplateFill
