import TemplateFill.Proofs.Bookmark.KeptScopes
import TemplateFill.Proofs.Bookmark.Lasting
import TemplateFill.Proofs.Bookmark.Swallowed
import TemplateFill.Proofs.Markup.Respelled

/-!
# Documents that come back after a substitution

New elements are spelled as the root has it, and may lack their declarations.  Where all others
keep their scopes, what is written after a substitution is read back with the same start markers
nevertheless.
-/

namespace TemplateFill

open Markup Node

/-- A label that can be written and read back in a scope.  It comes back as a start marker only if
it is one, and what is in it is not hidden. -/
structure Restorable (scope : Scope) (label : Label) : Prop where
  writable : (label.respelled scope).Writable
  distinct : (label.respelled scope).DistinctAttrs
  marker : label.respelled scope = label ∨
    label.kind ≠ .bookmarkStart ∧ (label.respelled scope).kind ≠ .bookmarkStart
  lasting : label.kind.isLasting = true → (label.respelled scope).kind.isLasting = true
  silent : label.Silent
  silentAgain : (label.respelled scope).Silent

/-- The local name tells what kind an element can be of, whatever its namespace is. -/
theorem QName.kind_cases (name : QName) :
    name.kind = (wordKinds.lookup name.localName).getD .generic ∨ name.kind = .math ∨
      (name.kind = .placeholder ∧ name.localName = "Placeholder") ∨ name.kind = .generic := by
  rw [kind]
  split
  · exact .inl rfl
  · split
    · exact .inr (.inl rfl)
    · split
      · rename_i isPlaceholder
        exact .inr (.inr (.inl ⟨rfl, (denotes_iff.1 isPlaceholder).2⟩))
      · exact .inr (.inr (.inr rfl))

namespace Restorable

variable {scope : Scope} {label : Label}

theorem of_namesIn (writable : label.Writable) (distinct : label.DistinctAttrs)
    (names : NamesIn scope label) (silent : label.Silent) : Restorable scope label := by
  have same := Label.respelled_of_namesIn names
  exact ⟨same.symm ▸ writable, same.symm ▸ distinct, .inl same,
    fun lasting => same.symm ▸ lasting, silent, same.symm ▸ silent⟩

/-- An element with a local name that no start marker has. -/
theorem of_localName {name : QName} {attrs : List Attr} (word : Kind) (legal : name.Legal)
    (attrsLegal : ∀ attr ∈ attrs, attr.name.Legal) (few : attrs.length ≤ 1)
    (nothing : declarations attrs = [])
    (isWord : (wordKinds.lookup name.localName).getD .generic = word)
    (other : word ≠ .bookmarkStart) (lasting : name.kind.isLasting = true →
      word.isLasting = true ∧ name.localName ≠ "Placeholder") :
    Restorable scope (.element name attrs) := by
  have noMarker : ∀ spelled : QName, spelled.localName = name.localName →
      spelled.kind ≠ .bookmarkStart := by
    intro spelled same isStart
    have kinds := spelled.kind_cases
    rw [same, isWord, isStart] at kinds
    rcases kinds with isWord | none | ⟨none, _⟩ | none
    · exact other isWord.symm
    all_goals cases none
  refine ⟨Label.writable_respelled ⟨legal, attrsLegal⟩, ?_,
    .inr ⟨noMarker name rfl, noMarker (name.elementIn scope) rfl⟩, fun kept => ?_,
    fun _ => nothing, fun _ => (declarations_map_respelled attrs).trans nothing⟩
  · show ((attrs.map (·.respelled scope)).map (·.name)).Nodup
    rw [List.map_map]
    cases attrs with
    | nil => exact List.nodup_nil
    | cons attr rest =>
        cases rest with
        | nil => exact List.nodup_singleton _
        | cons => simp at few
  · rcases lasting kept with ⟨wordLasts, notPlaceholder⟩
    show (name.elementIn scope).kind.isLasting = true
    rcases (name.elementIn scope).kind_cases with kind | kind | ⟨_, same⟩ | kind
    · rw [kind]
      exact isWord.symm ▸ wordLasts
    · rw [kind]
      rfl
    · exact absurd same notPlaceholder
    · rw [kind]
      rfl

theorem text (content : String) : Restorable scope (.text content) :=
  of_namesIn trivial List.nodup_nil (namesIn_text content) fun _ => rfl

/-- The elements that a substitution makes can be read back, though their names may miss their
declarations. -/
theorem allowsNew {attrs : List Attr} (attrsLegal : ∀ attr ∈ attrs, attr.name.Legal)
    (value : String) : AllowsNew (Restorable scope) (Term.spelled · attrs) value := by
  have legal : ∀ localName : String, isSimpleName localName.toList = true →
      ((Term.word localName).spelled attrs).Legal :=
    fun _ simple => Term.legal_spelled attrsLegal simple fun _ =>
      show isSimpleName "w".toList = true by decide
  have noAttrs : ∀ attr ∈ ([] : List Attr), attr.name.Legal := List.forall_mem_nil _
  constructor
  case paragraph =>
    exact of_localName .paragraph (legal "p" (by decide)) noAttrs (by decide) rfl rfl (by decide)
      fun _ => ⟨rfl, show "p" ≠ "Placeholder" by decide⟩
  case run =>
    exact of_localName .run (legal "r" (by decide)) noAttrs (by decide) rfl rfl (by decide)
      fun none => nomatch none
  case runText =>
    have space : Term.space.spelled attrs = ⟨some Namespace.xml, some "xml", "space"⟩ := rfl
    rw [runTextElement, label_element]
    split
    · rw [space]
      exact of_localName .runText (legal "t" (by decide)) (by decide) (by decide) rfl rfl
        (by decide) fun _ => ⟨rfl, show "t" ≠ "Placeholder" by decide⟩
    · exact of_localName .runText (legal "t" (by decide)) noAttrs (by decide) rfl rfl
        (by decide) fun _ => ⟨rfl, show "t" ≠ "Placeholder" by decide⟩
  case text => exact fun _ => text value

theorem placeholder : Restorable scope (.element (QName.ofTerm Term.placeholder) []) :=
  of_localName .generic (by decide) (List.forall_mem_nil _) (by decide) rfl rfl (by decide)
    fun none => nomatch none

end Restorable

namespace Node

section Respelled

variable {scope : Scope} {bookmark : String}

private theorem startsBookmark_respelled (bookmark : String) {name : QName} {attrs : List Attr}
    (top : Restorable (declarations attrs ++ scope) (.element name attrs)) (children : List Node) :
    (respelled scope (.element name attrs children)).startsBookmark bookmark =
      (element name attrs children).startsBookmark bookmark := by
  rw [respelled_element]
  rcases top.marker with same | ⟨before, after⟩
  · exact startsBookmark_eq_of_label_eq same
  · have noMarker : (element name attrs children).startsBookmark bookmark = false :=
      startsBookmark_of_kind before
    rw [noMarker]
    exact startsBookmark_of_kind after

/-- Reading names in their scopes keeps the start markers. -/
theorem startsIn_respelled {node : Node} (every : EveryIn Restorable scope node) :
    startsIn (fun _ => true) bookmark (node.respelled scope) =
      startsIn (fun _ => true) bookmark node := by
  induction node using treeInduction generalizing scope with
  | element name attrs children ih =>
      rcases everyIn_element.1 every with ⟨top, below⟩
      have inner : startsAmong (fun _ => true) bookmark
          (children.map (respelled (declarations attrs ++ scope))) =
          startsAmong (fun _ => true) bookmark children :=
        startsAmong_map_congr fun child member => ih child member (below child member)
      have marker := startsBookmark_respelled bookmark top children
      rw [respelled_element] at marker ⊢
      rw [startsIn_element, startsIn_element, marker, if_pos rfl, if_pos rfl, inner]
  | text | comment => rfl

/-- An element whose name misses its declaration may come back as one that is no run, but it never
becomes a run, a table or the properties of a paragraph. -/
theorem startsIn_lasting_le_respelled {node : Node} (every : EveryIn Restorable scope node) :
    startsIn Kind.isLasting bookmark node ≤
      startsIn Kind.isLasting bookmark (node.respelled scope) := by
  induction node using treeInduction generalizing scope with
  | element name attrs children ih =>
      rcases everyIn_element.1 every with ⟨top, below⟩
      have inner : startsAmong Kind.isLasting bookmark children ≤
          startsAmong Kind.isLasting bookmark
            (children.map (respelled (declarations attrs ++ scope))) :=
        startsAmong_map_le fun child member => ih child member (below child member)
      have marker := startsBookmark_respelled bookmark top children
      rw [respelled_element] at marker ⊢
      rw [startsIn_element, startsIn_element, marker]
      refine Nat.add_le_add_left ?_ _
      split
      · rename_i entered
        have lasts : (name.elementIn (declarations attrs ++ scope)).kind.isLasting = true :=
          top.lasting entered
        rw [if_pos lasts]
        exact inner
      · exact Nat.zero_le _
  | text | comment => exact Nat.le_refl _

/-- Opened elements are read again without declarations. -/
theorem silent_respelled {node : Node} (every : EveryIn Restorable scope node) :
    EveryLabel Label.Silent (node.respelled scope) := by
  induction node using treeInduction generalizing scope with
  | element name attrs children ih =>
      rcases everyIn_element.1 every with ⟨top, below⟩
      rw [respelled_element]
      refine everyLabel_element.2 ⟨top.silentAgain, List.forall_mem_map.2 fun child member => ?_⟩
      exact ih child member (below child member)
  | text => exact everyLabel_text.2 fun _ => rfl
  | comment => exact everyLabel_comment.2 fun _ => rfl

end Respelled

end Node

/-! ## One substitution after the other -/

namespace Bookmark

/-- A document to go on with: it can be written, its opened elements have no declarations, and the
root is no placeholder. -/
structure Resumable (root : Node) : Prop where
  writable : Writable [] root
  isElement : root.isElement = true
  silent : ∀ child ∈ root.children, EveryLabel Label.Silent child
  notHolder : root.kind ≠ .placeholder

/-- A document that comes back after `bookmark` has been filled in `root`. -/
structure Resumed (root : Node) (bookmark : String) (again : Node) : Prop where
  resumable : Resumable again
  names : ∀ name, name ∈ names again ↔ name ∈ names root ∧ ¬ Swallows root bookmark name
  lasting : ∀ name, startsAmong Kind.isLasting name root.children ≤
    startsAmong Kind.isLasting name again.children

variable {root filled : Node} {revised : Bool} {bookmark text : String}

/-- The names of other children may be in any namespaces that can be read again. -/
theorem Resumable.respelled {name : QName} {attrs : List Attr} {children others : List Node}
    (resumable : Resumable (.element name attrs children))
    (every : ∀ child ∈ others, EveryIn Restorable (declarations attrs ++ []) child) :
    Resumable (.element name attrs (others.map (·.respelled (declarations attrs ++ [])))) where
  writable := resumable.writable.withChildren (List.forall_mem_map.2 fun child member =>
    writable_respelled ((every child member).mono fun _ _ restorable =>
      ⟨restorable.writable, restorable.distinct⟩))
  isElement := rfl
  silent := List.forall_mem_map.2 fun child member => silent_respelled (every child member)
  notHolder := resumable.notHolder

theorem Resumable.reread (resumable : Resumable root) : Resumable root.reread where
  writable := resumable.writable.reread
  isElement := (isElement_reread root).trans resumable.isElement
  silent := by
    intro child member
    rcases mem_children_reread member with ⟨content, rfl⟩ | ⟨source, among, rfl⟩
    · exact everyLabel_text.2 fun _ => rfl
    · exact (resumable.silent source among).reread fun _ _ => rfl
  notHolder := by
    rw [kind_eq_of_label_eq (label_reread root)]
    exact resumable.notHolder

/-- What is written after a substitution is read again, and only the bookmarks that have been
swallowed are missing. -/
theorem Resumable.exists_resumed (resumable : Resumable root)
    (success : substitute root revised bookmark text = .ok filled) :
    ∃ again, readText filled.toDocument = .ok again ∧ Resumed root bookmark again := by
  rcases exists_fills_of_kind resumable.notHolder success with ⟨site, path, fills⟩
  have label := fills.label_eq_of_kind resumable.notHolder
  cases root with
  | text | comment => cases resumable.isElement
  | element name attrs children =>
      cases filled with
      | text | comment => cases label
      | element name' attrs' others =>
          obtain ⟨rfl, rfl⟩ := Label.element.inj label
          have before : ∀ child ∈ children,
              EveryIn Restorable (declarations attrs' ++ []) child := fun child member =>
            everyIn_of_writable (resumable.writable.child member) (resumable.silent child member)
              fun _ _ => Restorable.of_namesIn
          have after : ∀ child ∈ others, EveryIn Restorable (declarations attrs' ++ []) child :=
            fills.everyIn_children resumable.notHolder (fun _ _ restorable => restorable.silent)
              (fun _ => Restorable.allowsNew resumable.writable.labels.self.2 text)
              (fun _ => .placeholder) before
          have read := readText_toDocument_respelled (resumable.respelled after).writable
          refine ⟨_, read, (resumable.respelled after).reread, fun name => ?_, fun name => ?_⟩
          · rw [← mem_names_of_substitute resumable.notHolder success, mem_names_iff, mem_names_iff,
              ← startsAmong_all, ← startsAmong_all, startsAmong_children_reread, children_element,
              startsAmong_map_congr fun child member => startsIn_respelled (after child member)]
            rfl
          · rw [startsAmong_children_reread, ← fills.startsAmong_lasting resumable.notHolder]
            exact startsAmong_map_le fun child member =>
              startsIn_lasting_le_respelled (after child member)

end Bookmark

end TemplateFill
