import TemplateFill.Proofs.Markup.Reading
import TemplateFill.Proofs.Store.Opened

/-!
# Reading into stores agrees with reading trees

Taking the same lexical units, the reader into a store and the reader of trees fail alike, and
where they go on, the open elements of the store hold what the open frames do.  In the end the
store represents the tree.
-/

namespace TemplateFill

open Relation TemplateFill.Markup

namespace NodeStore

/-- How far the reading into a store has come when the tree has been read as far: the root
element has not started yet, is open, or has been closed. -/
inductive Follows : StoreReader → ReadState → Prop where
  | start : Follows .initial .initial
  | inside {store : NodeStore} {root : Option NodeId} {id : NodeId} {head frame : Frame}
      {opened : List (NodeId × Frame)} {frames : List Frame} (wellFormed : store.WellFormed)
      (spine : Spine store root id [] ((id, head) :: opened) (frame :: frames)) :
      Follows ⟨store, (id, head) :: opened, root⟩ ⟨frame :: frames, none⟩
  | behind {store : NodeStore} {id : NodeId} {node : Node} (wellFormed : store.WellFormed)
      (inRange : id < store.size) (detached : store.parent? id = none)
      (below : store.branch id = .ofNode node) :
      Follows ⟨store, [], some id⟩ ⟨[], some node⟩

/-! ## Start tags -/

theorem Spine.declarations_eq {store : NodeStore} {root : Option NodeId} {focus : NodeId}
    {inner : List NodeId} {opened : List (NodeId × Frame)} {frames : List Frame}
    (spine : Spine store root focus inner opened frames) :
    opened.map (·.2.declarations) = frames.map (·.declarations) := by
  induction spine with
  | nil => rfl
  | cons _ _ _ _ _ _ _ _ ih => rw [List.map_cons, List.map_cons, ih]

variable {reader : StoreReader} {state : ReadState} {frame : Frame}

theorem Follows.openFrame_eq (follows : Follows reader state) (content : List Char) :
    reader.openFrame content = state.openFrame content := by
  rw [StoreReader.openFrame, ReadState.openFrame]
  cases Tag.read content with
  | error fault => rfl
  | ok tag =>
      cases follows with
      | start | behind => rfl
      | inside wellFormed spine =>
          have same := spine.declarations_eq
          simp only [List.isEmpty_cons, Bool.false_and, Bool.false_eq_true, if_false, Frame.ofTag,
            List.map_map, Function.comp_def] at same ⊢
          rw [same]

/-- Where an element starts it has no children, and outside the root there is no root yet. -/
theorem of_openFrame {content : List Char} (opens : state.openFrame content = .ok frame) :
    frame.children = [] ∧ (state.frames = [] → state.root = none) := by
  rcases ReadState.exists_tag_of_openFrame opens with ⟨tag, _, rfl, free⟩
  exact ⟨rfl, free⟩

/-- A new element, which has no children, is open inside the others. -/
theorem Spine.openElement {store : NodeStore} {root : Option NodeId} {focus id : NodeId}
    {opened : List (NodeId × Frame)} {frames : List Frame} (leaf : frame.children = [])
    (inRange : id < store.size) (isElement : store.label id = .element frame.name frame.attrs)
    (children : store.children id = []) (outer : Spine store root focus [id] opened frames) :
    Spine store root focus [] ((id, frame) :: opened) (frame :: frames) := by
  have bare : { frame with children := [] } = frame := by
    cases frame
    cases leaf
    rfl
  have spine : Spine store root focus [] ((id, { frame with children := [] }) :: opened)
      (frame :: frames) :=
    .cons frame [] inRange isElement children (by rw [leaf]; rfl) nofun outer
  rwa [bare] at spine

/-- The element of a start tag is open from then on. -/
theorem Follows.openElement (follows : Follows reader state) (leaf : frame.children = [])
    (free : state.frames = [] → state.root = none) :
    Follows (reader.openElement frame) { state with frames := frame :: state.frames } := by
  cases follows with
  | start =>
      have alloc := Adds.alloc wellFormed_empty (.element frame.name frame.attrs)
      refine .inside alloc.wellFormed (.openElement leaf (alloc.inRange _ List.mem_cons_self)
        (label_alloc ..) (children_alloc_self ..) (.nil fun id member => ?_))
      rw [List.mem_singleton.1 member]
      exact ⟨alloc.detached _ List.mem_cons_self, rfl⟩
  | @inside store root id _ _ _ _ wellFormed spine =>
      have used := spine.inRange
      have edits := editsBelow_addBelow wellFormed used (.element frame.name frame.attrs)
      have up := (parent?_addBelow wellFormed used (.element frame.name frame.attrs)
        store.size).trans (if_pos rfl)
      have ways : ∀ child < store.size,
          (store.addBelow id (.element frame.name frame.attrs)).Below store.size child →
            store.Below id child := by
        intro child old way
        rcases way.cases_head with rfl | ⟨_, up', way⟩
        · exact absurd old (Nat.lt_irrefl _)
        · rw [Up, up, Option.some.injEq] at up'
          exact edits.below_of_below wellFormed (up' ▸ way)
      refine .inside edits.wellFormed (.openElement leaf (lt_size_of_parent? up) ?_ ?_
        (spine.addBelow wellFormed _ ways))
      · exact (label_addBelow wellFormed used _ store.size).trans (if_pos rfl)
      · exact (children_addBelow wellFormed used _ store.size).trans
          ((if_neg (Nat.ne_of_gt used)).trans store.children_size)
  | behind => cases free rfl

/-- An element without content is closed at once. -/
theorem Follows.addElement (follows : Follows reader state) (leaf : frame.children = [])
    (free : state.frames = [] → state.root = none) :
    Follows (reader.addElement (.element frame.name frame.attrs))
      (ReadState.place state.frames state.root frame.close) := by
  have closed : Branch.ofNode frame.close = .mk (.element frame.name frame.attrs) [] := by
    rw [Frame.close, leaf]
    rfl
  cases follows with
  | start =>
      have alloc := Adds.alloc wellFormed_empty (.element frame.name frame.attrs)
      exact .behind alloc.wellFormed (alloc.inRange _ List.mem_cons_self)
        (alloc.detached _ List.mem_cons_self) ((branch_alloc wellFormed_empty _).trans closed.symm)
  | inside wellFormed spine =>
      exact .inside (wellFormed.addBelow spine.inRange _) (spine.push closed wellFormed)
  | behind => cases free rfl

/-! ## Texts and comments -/

theorem Follows.pushText (follows : Follows reader state) (content : List Char) :
    Follows (reader.pushText content) (state.pushText content) := by
  cases follows with
  | start => exact .start
  | inside wellFormed spine =>
      rcases spine.pushText wellFormed content with ⟨wellFormed, spine⟩
      exact .inside wellFormed spine
  | behind wellFormed inRange detached below => exact .behind wellFormed inRange detached below

theorem Follows.pushComment (follows : Follows reader state) (content : List Char) :
    Follows (reader.pushComment content) (state.pushComment content) := by
  cases follows with
  | start => exact .start
  | inside wellFormed spine =>
      exact .inside (wellFormed.addBelow spine.inRange _) (spine.push rfl wellFormed)
  | behind wellFormed inRange detached below => exact .behind wellFormed inRange detached below

/-! ## End tags -/

theorem Follows.close (follows : Follows reader state) (name : List Char) :
    Agrees Follows (reader.close name) (state.close name) := by
  cases follows with
  | start | behind => exact rfl
  | @inside store root id head frame opened frames wellFormed spine =>
      cases spine with
      | cons _ closed inRange isElement children below apart outer =>
          rw [List.append_nil] at children
          rcases dropIndentation_spec wellFormed isElement children below with ⟨edits, isClosed⟩
          rw [StoreReader.close, ReadState.close]
          dsimp only
          split
          case isFalse => exact rfl
          have used := Nat.lt_of_lt_of_le inRange edits.grows
          have around := outer
          cases outer with
          | nil top =>
              rcases top id List.mem_cons_self with ⟨detached, rfl⟩
              exact .behind edits.wellFormed used (edits.parent_eq.trans detached) isClosed
          | @cons _ parent opened frames frame' _ _ _ children' _ _ _ =>
              have up : (store.dropIndentation id).Up id parent :=
                edits.parent_eq.trans ((wellFormed.linked parent id).1 (children' ▸ by simp))
              have around : Spine (store.dropIndentation id) root parent [id] _ _ :=
                around.edited edits wellFormed
                  (fun _ _ way => edits.below_of_below wellFormed (.head up way))
                  (List.cons_ne_nil _ _) fun other member => List.mem_singleton.1 member ▸ .refl
              exact .inside edits.wellFormed (around.absorb
                (fun way => edits.wellFormed.acyclic id (.head' up way)) isClosed)

/-! ## Whole documents -/

theorem Follows.take (follows : Follows reader state) (lexeme : Lexeme) :
    Agrees Follows (reader.take lexeme) (state.take lexeme) := by
  cases lexeme with
  | startTag content =>
      rw [StoreReader.take, ReadState.take, follows.openFrame_eq content]
      cases opens : state.openFrame content with
      | error fault => exact rfl
      | ok frame =>
          rcases of_openFrame opens with ⟨leaf, free⟩
          exact follows.openElement leaf free
  | emptyTag content =>
      rw [StoreReader.take, ReadState.take, follows.openFrame_eq content]
      cases opens : state.openFrame content with
      | error fault => exact rfl
      | ok frame =>
          rcases of_openFrame opens with ⟨leaf, free⟩
          exact follows.addElement leaf free
  | endTag name => exact follows.close name
  | text content | characterData content => exact follows.pushText content
  | comment content => exact follows.pushComment content
  | reference name =>
      rw [StoreReader.take, ReadState.take]
      cases resolveReference? name with
      | none => exact rfl
      | some char => exact follows.pushText [char]
  | ignored => exact follows

theorem takeAll_of_next {char : Char} {rest after : List Char} {lexeme : Lexeme}
    (unit : Lexeme.next char rest = .ok (lexeme, after)) :
    reader.takeAll (char :: rest) = reader.take lexeme >>= fun next => next.takeAll after := by
  rw [StoreReader.takeAll]
  split
  case h_1 unit' =>
    rw [unit] at unit'
    cases unit'
  case h_2 unit' =>
    rw [unit] at unit'
    cases unit'
    cases reader.take lexeme <;> rfl

theorem takeAll_of_fault {char : Char} {rest : List Char} {fault : LexicalFault}
    (unit : Lexeme.next char rest = .error fault) :
    reader.takeAll (char :: rest) = .error (.lexical fault) := by
  rw [StoreReader.takeAll]
  split
  case h_1 unit' =>
    rw [unit] at unit'
    cases unit'
    rfl
  case h_2 unit' =>
    rw [unit] at unit'
    cases unit'

theorem Follows.takeAll (follows : Follows reader state) (text : List Char) :
    Agrees Follows (reader.takeAll text) (state.takeAll text) := by
  fun_induction ReadState.takeAll state text generalizing reader with
  | case1 state =>
      rw [StoreReader.takeAll]
      exact follows
  | case2 state char rest fault unit =>
      rw [takeAll_of_fault unit]
      exact rfl
  | case3 state char rest lexeme after unit fault taken =>
      have agrees := follows.take lexeme
      rw [taken] at agrees
      rw [takeAll_of_next unit]
      revert agrees
      cases reader.take lexeme with
      | error fault' => exact id
      | ok next => exact False.elim
  | case4 state char rest lexeme after unit next taken ih =>
      have agrees := follows.take lexeme
      rw [taken] at agrees
      rw [takeAll_of_next unit]
      revert agrees
      cases reader.take lexeme with
      | error fault => exact False.elim
      | ok next' => exact ih

theorem Follows.finish (follows : Follows reader state) :
    Agrees Represents reader.finish state.finish := by
  cases follows with
  | start => exact rfl
  | inside => exact rfl
  | @behind store id _ wellFormed inRange detached below =>
      exact ⟨⟨wellFormed.setRoot id, inRange, detached⟩,
        (wellFormed.branch_setRoot id id).trans below⟩

/-- A text is read into a store that represents the document that is read from it, or both
readers fail alike. -/
theorem readText_agrees (text : List Char) :
    Agrees Represents (NodeStore.readText text) (Markup.readText text) := by
  rw [NodeStore.readText, Markup.readText]
  exact (Follows.start.takeAll (dropMark text)).bind fun _ _ follows => follows.finish

theorem readBytes_agrees (bytes : Bytes) :
    Agrees Represents (NodeStore.readBytes bytes) (Markup.readBytes bytes) := by
  rw [NodeStore.readBytes, Markup.readBytes]
  cases decodeText bytes with
  | error fault => exact rfl
  | ok text => exact readText_agrees text

/-- A store that has been read represents the document that is read from the same bytes. -/
theorem represents_of_readBytes {bytes : Bytes} {store : NodeStore}
    (read : NodeStore.readBytes bytes = .ok store) :
    ∃ document, Markup.readBytes bytes = .ok document ∧ store.Represents document := by
  have agrees := readBytes_agrees bytes
  rw [read] at agrees
  exact agrees.exists_right

theorem represents_of_readText {text : List Char} {store : NodeStore}
    (read : NodeStore.readText text = .ok store) :
    ∃ document, Markup.readText text = .ok document ∧ store.Represents document := by
  have agrees := readText_agrees text
  rw [read] at agrees
  exact agrees.exists_right

/-- Where a document can be read, a store can be read that represents it. -/
theorem exists_represents_of_readText {text : List Char} {document : Node}
    (read : Markup.readText text = .ok document) :
    ∃ store, NodeStore.readText text = .ok store ∧ store.Represents document := by
  have agrees := readText_agrees text
  rw [read] at agrees
  exact agrees.exists_left

end NodeStore

end TemplateFill
