import Mathlib.Data.List.Infix
import TemplateFill.Markup.Encoding

/-!
# What reading builds

Every element of a document that has been read comes from one tag.  Its name and its attributes
are resolved in the declarations of this tag and of the elements around it, as they were when the
tag was read.  What holds of everything that can be built in this way from the tags of a text holds
of the document that is read from it.
-/

namespace TemplateFill.Markup

open Text

/-- The declarations of a tag. -/
def Tag.declarations (tag : Tag) : Declarations := tag.attrs.filterMap RawAttr.declaration?

/-- The attributes of a tag, resolved in declarations. -/
def Tag.attrsIn (scopes : List Declarations) (tag : Tag) : List Attr :=
  tag.attrs.map fun attr => ⟨attrName scopes attr.key, String.ofList attr.value⟩

/-- The tag that a lexical unit opens. -/
def Lexeme.tag? : Lexeme → Option Tag
  | .startTag content => (Tag.read content).toOption
  | .emptyTag content => (Tag.read content).toOption
  | _ => none

/-- The tags of a text that open elements, as far as the text can be cut into lexical units. -/
def tagsOf (text : List Char) : List Tag :=
  match text with
  | [] => []
  | char :: rest =>
      match _unit : Lexeme.next char rest with
      | .error _ => []
      | .ok (lexeme, after) => lexeme.tag?.toList ++ tagsOf after
termination_by text.length
decreasing_by exact Lexeme.length_lt_of_next _unit

/-- The lexical units of a text, as far as it can be cut into units. -/
def unitsOf (text : List Char) : List Lexeme :=
  match text with
  | [] => []
  | char :: rest =>
      match _unit : Lexeme.next char rest with
      | .error _ => []
      | .ok (lexeme, after) => lexeme :: unitsOf after
termination_by text.length
decreasing_by exact Lexeme.length_lt_of_next _unit

theorem unitsOf_of_next {char : Char} {rest after : List Char} {lexeme : Lexeme}
    (unit : Lexeme.next char rest = .ok (lexeme, after)) :
    unitsOf (char :: rest) = lexeme :: unitsOf after := by
  rw [unitsOf]
  split
  · rename_i fails
    rw [unit] at fails
    cases fails
  · rename_i same
    rw [unit] at same
    cases same
    rfl

theorem tagsOf_eq (text : List Char) :
    tagsOf text = (unitsOf text).flatMap fun lexeme => lexeme.tag?.toList := by
  fun_induction tagsOf text with
  | case1 => rw [unitsOf, List.flatMap_nil]
  | case2 char rest fault unit =>
      rw [unitsOf]
      split
      · rfl
      · rename_i same
        rw [unit] at same
        cases same
  | case3 char rest lexeme after unit ih => rw [unitsOf_of_next unit, List.flatMap_cons, ih]

/-- What holds, inside elements with given declarations, of all that can be built of allowed tags,
texts and comments. -/
structure BuildsUp (allowed : Tag → Prop) (holds : List Declarations → Node → Prop) : Prop where
  element : ∀ (scopes : List Declarations) (tag : Tag) (children : List Node), allowed tag →
    (∀ child ∈ children, holds (tag.declarations :: scopes) child) →
    holds scopes (.element (elementName (tag.declarations :: scopes) tag.name)
      (tag.attrsIn (tag.declarations :: scopes)) children)
  text : ∀ scopes content, holds scopes (.text content)
  comment : ∀ (scopes : List Declarations) (content : String),
    ¬ ['-', '-', '>'] <:+: content.toList → holds scopes (.comment content)

/-! ## Units -/

/-- What stands before the first occurrence of a pattern does not hold one. -/
private theorem not_infix_of_cutPatternFrom? {pattern passed text before after : List Char}
    (cut : cutPatternFrom? pattern passed text = some (before, after)) :
    ∃ content, before = passed.reverse ++ content ∧ text = content ++ pattern ++ after ∧
      (pattern ≠ [] → ¬ pattern <:+: content) := by
  induction text generalizing passed with
  | nil =>
      simp only [cutPatternFrom?, Option.map_eq_some_iff] at cut
      rcases cut with ⟨rest, stripped, same⟩
      cases same
      refine ⟨[], (List.append_nil _).symm, eq_append_of_stripFront? stripped, ?_⟩
      exact fun filled inside => filled (List.infix_nil.1 inside)
  | cons char rest ih =>
      rw [cutPatternFrom?] at cut
      split at cut
      · rename_i tail stripped
        cases cut
        refine ⟨[], (List.append_nil _).symm, eq_append_of_stripFront? stripped, ?_⟩
        exact fun filled inside => filled (List.infix_nil.1 inside)
      · rename_i noFront
        rcases ih cut with ⟨content, whole, split, unended⟩
        refine ⟨char :: content, by simp [whole], by simp [split], ?_⟩
        intro filled inside
        rcases List.infix_cons_iff.1 inside with ⟨tail, front⟩ | later
        · have starts : char :: rest = pattern ++ (tail ++ (pattern ++ after)) := by
            rw [split, ← List.append_assoc, front]
            simp
          rw [starts, stripFront?_append] at noFront
          cases noFront
        · exact unended filled later

/-- What is known of a unit that has been cut off a text. -/
def Lexeme.WellCut : Lexeme → Prop
  | .text content => content ≠ []
  | .comment content => ¬ ['-', '-', '>'] <:+: content
  | _ => True

/-- Running text is cut off where there is some, and a comment ends where it first can. -/
theorem wellCut_of_next {char : Char} {rest after : List Char} {lexeme : Lexeme}
    (unit : Lexeme.next char rest = .ok (lexeme, after)) : lexeme.WellCut := by
  cases Lexeme.cut_of_next unit with
  | text => exact List.cons_ne_nil _ _
  | comment cut =>
      rcases not_infix_of_cutPatternFrom? cut with ⟨content, same, _, unended⟩
      rw [same]
      exact unended (by decide)
  | _ => trivial

/-! ## Steps -/

namespace ReadState

/-- An element starts with a tag that can be read; outside the root there is no root yet. -/
theorem exists_tag_of_openFrame {state : ReadState} {content : List Char} {frame : Frame}
    (opened : state.openFrame content = .ok frame) :
    ∃ tag, Tag.read content = .ok tag ∧ frame = Frame.ofTag state.frames tag ∧
      (state.frames = [] → state.root = none) := by
  rw [openFrame] at opened
  split at opened
  case h_1 => cases opened
  case h_2 tag read =>
    split at opened
    case isTrue => cases opened
    case isFalse free =>
      cases opened
      exact ⟨tag, read, rfl, fun isEmpty => by simpa [isEmpty] using free⟩

/-- What is made of the frame of a start tag. -/
private theorem exists_tag_of_map_openFrame {state next : ReadState} {content : List Char}
    {made : Frame → ReadState} (taken : (state.openFrame content).map made = .ok next) :
    ∃ tag, Tag.read content = .ok tag ∧ (state.frames = [] → state.root = none) ∧
      made (Frame.ofTag state.frames tag) = next := by
  cases opened : state.openFrame content with
  | error fault =>
      rw [opened] at taken
      cases taken
  | ok frame =>
      rw [opened] at taken
      rcases exists_tag_of_openFrame opened with ⟨tag, read, rfl, free⟩
      exact ⟨tag, read, free, Except.ok.inj taken⟩

/-- What a lexical unit does to the state of reading. -/
inductive Takes (state : ReadState) : Lexeme → ReadState → Prop where
  | startTag {content : List Char} {tag : Tag} (read : Tag.read content = .ok tag)
      (free : state.frames = [] → state.root = none) :
      Takes state (.startTag content)
        { state with frames := Frame.ofTag state.frames tag :: state.frames }
  | emptyTag {content : List Char} {tag : Tag} (read : Tag.read content = .ok tag)
      (free : state.frames = [] → state.root = none) :
      Takes state (.emptyTag content)
        (place state.frames state.root (Frame.ofTag state.frames tag).close)
  | endTag {frame : Frame} {outer : List Frame} (opened : state.frames = frame :: outer) :
      Takes state (.endTag frame.written) (place outer state.root frame.close)
  | text {content : List Char} : Takes state (.text content) (state.pushText content)
  | characterData {content : List Char} :
      Takes state (.characterData content) (state.pushText content)
  | comment {content : List Char} : Takes state (.comment content) (state.pushComment content)
  | reference {name : List Char} {char : Char} (resolves : resolveReference? name = some char) :
      Takes state (.reference name) (state.pushText [char])
  | ignored : Takes state .ignored state

theorem takes_of_take {state next : ReadState} {lexeme : Lexeme}
    (taken : state.take lexeme = .ok next) : state.Takes lexeme next := by
  cases lexeme with
  | startTag content =>
      rcases exists_tag_of_map_openFrame taken with ⟨tag, read, free, rfl⟩
      exact .startTag read free
  | emptyTag content =>
      rcases exists_tag_of_map_openFrame taken with ⟨tag, read, free, rfl⟩
      exact .emptyTag read free
  | endTag name =>
      rw [take, close] at taken
      split at taken
      case h_1 => cases taken
      case h_2 frame outer opened =>
        split at taken
        case isTrue same =>
          cases taken
          rw [same]
          exact .endTag opened
        case isFalse => cases taken
  | text content =>
      cases taken
      exact .text
  | characterData content =>
      cases taken
      exact .characterData
  | comment content =>
      cases taken
      exact .comment
  | reference name =>
      rw [take] at taken
      split at taken
      case h_1 resolves =>
        cases taken
        exact .reference resolves
      case h_2 => cases taken
  | ignored =>
      cases taken
      exact .ignored

section Invariant

variable {invariant : ReadState → Prop} {text : List Char}
  (kept : ∀ lexeme ∈ unitsOf text, lexeme.WellCut → ∀ state next : ReadState,
    state.Takes lexeme next → invariant state → invariant next)

include kept

/-- What every unit of a text keeps holds in the end. -/
theorem invariant_of_takeAll {state last : ReadState} (start : invariant state)
    (taken : state.takeAll text = .ok last) : invariant last := by
  fun_induction takeAll state text with
  | case1 =>
      cases taken
      exact start
  | case2 | case3 => cases taken
  | case4 state char rest lexeme after unit middle step ih =>
      rw [unitsOf_of_next unit, List.forall_mem_cons] at kept
      have one : invariant middle :=
        kept.1 (wellCut_of_next unit) state middle (takes_of_take step) start
      exact ih kept.2 one taken

end Invariant

/-- In the end no element is open, and what has been read is the root. -/
theorem takeAll_of_readText {text : List Char} {root : Node} (read : readText text = .ok root) :
    initial.takeAll (dropMark text) = .ok ⟨[], some root⟩ := by
  rw [readText] at read
  cases taken : initial.takeAll (dropMark text) with
  | error fault =>
      rw [taken] at read
      cases read
  | ok state =>
      rw [taken] at read
      rcases state with ⟨_ | ⟨frame, outer⟩, _ | last⟩
      · cases read
      · cases read
        rfl
      · cases read
      · cases read

end ReadState

/-! ## Open elements -/

section Holds

variable {allowed : Tag → Prop} {holds : List Declarations → Node → Prop}

/-- Open elements come from tags, and something holds of their children so far. -/
inductive FramesHold (allowed : Tag → Prop) (holds : List Declarations → Node → Prop) :
    List Frame → Prop where
  | nil : FramesHold allowed holds []
  | cons {outer : List Frame} {tag : Tag} {children : List Node} (isAllowed : allowed tag)
      (below : ∀ child ∈ children,
        holds (tag.declarations :: outer.map (·.declarations)) child)
      (rest : FramesHold allowed holds outer) :
      FramesHold allowed holds ({ Frame.ofTag outer tag with children } :: outer)

/-- The same, where the root has been read, for the root. -/
structure ReadState.Holds (allowed : Tag → Prop) (holds : List Declarations → Node → Prop)
    (state : ReadState) : Prop where
  frames : FramesHold allowed holds state.frames
  root : ∀ root, state.root = some root → holds [] root ∧ root.isElement = true

section Frame

variable {frame : Frame} {outer : List Frame} {tag : Tag} {root : Option Node}

theorem FramesHold.opened (frames : FramesHold allowed holds outer) (isAllowed : allowed tag) :
    FramesHold allowed holds (Frame.ofTag outer tag :: outer) := by
  have none : ∀ child ∈ ([] : List Node),
      holds (tag.declarations :: outer.map (·.declarations)) child := List.forall_mem_nil _
  exact .cons isAllowed none frames

theorem FramesHold.push {node : Node} (frames : FramesHold allowed holds (frame :: outer))
    (inside : holds ((frame :: outer).map (·.declarations)) node) :
    FramesHold allowed holds (frame.push node :: outer) := by
  cases frames with
  | cons isAllowed below rest =>
      exact .cons isAllowed (List.forall_mem_cons.2 ⟨inside, below⟩) rest

variable (closed : BuildsUp allowed holds)

include closed

theorem FramesHold.pushText (frames : FramesHold allowed holds (frame :: outer))
    (content : List Char) : FramesHold allowed holds (frame.pushText content :: outer) := by
  rw [Frame.pushText]
  split
  · cases frames with
    | cons isAllowed below rest =>
        rename_i before others same
        simp only at same
        rw [same, List.forall_mem_cons] at below
        exact .cons isAllowed (List.forall_mem_cons.2 ⟨closed.text _ _, below.2⟩) rest
  · exact frames.push (closed.text _ _)

/-- A closed element comes from the tag that has opened it. -/
theorem FramesHold.close (frames : FramesHold allowed holds (frame :: outer)) :
    holds (outer.map (·.declarations)) frame.close ∧ FramesHold allowed holds outer := by
  cases frames with
  | @cons _ tag children isAllowed below rest =>
      refine ⟨closed.element _ tag _ isAllowed fun child member => ?_, rest⟩
      apply below child
      rw [← List.mem_reverse]
      rw [Frame.dropIndentation] at member
      split at member
      · exact (List.mem_filter.1 member).1
      · exact member

omit closed in
theorem ReadState.Holds.place {node : Node} (frames : FramesHold allowed holds outer)
    (known : ∀ node, root = some node → holds [] node ∧ node.isElement = true)
    (inside : holds (outer.map (·.declarations)) node) (element : node.isElement = true) :
    (ReadState.place outer root node).Holds allowed holds := by
  cases outer with
  | nil =>
      refine ⟨.nil, ?_⟩
      rintro _ ⟨⟩
      exact ⟨inside, element⟩
  | cons frame outer => exact ⟨frames.push inside, known⟩

end Frame

namespace ReadState.Holds

variable {state next : ReadState}

variable (closed : BuildsUp allowed holds)

include closed

theorem pushText (held : state.Holds allowed holds) (content : List Char) :
    (state.pushText content).Holds allowed holds := by
  rcases state with ⟨frames, root⟩
  cases frames with
  | nil => exact held
  | cons frame outer => exact ⟨held.frames.pushText closed content, held.root⟩

theorem pushComment (held : state.Holds allowed holds) {content : List Char}
    (unended : ¬ ['-', '-', '>'] <:+: content) :
    (state.pushComment content).Holds allowed holds := by
  rcases state with ⟨frames, root⟩
  cases frames with
  | nil => exact held
  | cons frame outer =>
      refine ⟨held.frames.push (closed.comment _ _ ?_), held.root⟩
      rw [String.toList_ofList]
      exact unended

/-- Taking a lexical unit keeps to what can be built. -/
theorem takes (held : state.Holds allowed holds) {lexeme : Lexeme}
    (isAllowed : ∀ tag ∈ lexeme.tag?, allowed tag) (wellCut : lexeme.WellCut)
    (step : state.Takes lexeme next) : next.Holds allowed holds := by
  cases step with
  | startTag read =>
      rw [Lexeme.tag?, read] at isAllowed
      exact ⟨held.frames.opened (isAllowed _ rfl), held.root⟩
  | emptyTag read =>
      rw [Lexeme.tag?, read] at isAllowed
      have frames := held.frames.opened (isAllowed _ rfl)
      exact .place held.frames held.root (frames.close closed).1 rfl
  | endTag opened =>
      have frames := held.frames
      rw [opened] at frames
      exact .place (frames.close closed).2 held.root (frames.close closed).1 rfl
  | text | characterData | reference => exact held.pushText closed _
  | comment => exact held.pushComment closed wellCut
  | ignored => exact held

end ReadState.Holds

variable (closed : BuildsUp allowed holds)

include closed

/-- What holds of all that can be built from the tags of a text holds of what is read from it. -/
theorem holds_of_readText {text : List Char} {root : Node}
    (isAllowed : ∀ tag ∈ tagsOf (dropMark text), allowed tag)
    (read : readText text = .ok root) : holds [] root ∧ root.isElement = true := by
  have start : ReadState.initial.Holds allowed holds := ⟨.nil, fun _ none => by cases none⟩
  have held : ReadState.Holds allowed holds ⟨[], some root⟩ := by
    refine ReadState.invariant_of_takeAll ?_ start (ReadState.takeAll_of_readText read)
    intro lexeme among wellCut state next step held
    refine held.takes closed (fun tag isTag => isAllowed tag ?_) wellCut step
    rw [tagsOf_eq]
    exact List.mem_flatMap.2 ⟨lexeme, among, Option.mem_toList.2 isTag⟩
  exact held.root root rfl

theorem holds_of_readBytes {bytes : Bytes} {root : Node}
    (isAllowed : ∀ text, decodeText bytes = .ok text → ∀ tag ∈ tagsOf (dropMark text), allowed tag)
    (read : readBytes bytes = .ok root) : holds [] root ∧ root.isElement = true := by
  rw [readBytes] at read
  split at read
  · rename_i text decoded
    exact holds_of_readText closed (isAllowed text decoded) read
  · cases read

end Holds

/-! ## Elements come from tags -/

/-- The elements of a tree come from tags inside elements with the declarations `scopes`. -/
inductive Built : List Declarations → Node → Prop where
  | element {scopes : List Declarations} {tag : Tag} {children : List Node}
      (below : ∀ child ∈ children, Built (tag.declarations :: scopes) child) :
      Built scopes (.element (elementName (tag.declarations :: scopes) tag.name)
        (tag.attrsIn (tag.declarations :: scopes)) children)
  | text {scopes : List Declarations} {content : String} : Built scopes (.text content)
  | comment {scopes : List Declarations} {content : String} : Built scopes (.comment content)

/-- What is read is an element. -/
theorem isElement_of_readText {text : List Char} {root : Node} (read : readText text = .ok root) :
    root.isElement = true := by
  have closed : BuildsUp (fun _ => True) fun _ _ => True :=
    ⟨fun _ _ _ _ _ => trivial, fun _ _ => trivial, fun _ _ _ => trivial⟩
  exact (holds_of_readText closed (fun _ _ => trivial) read).2

/-- A document that has been read comes from its tags. -/
theorem built_of_readBytes {bytes : Bytes} {root : Node} (read : readBytes bytes = .ok root) :
    Built [] root := by
  have closed : BuildsUp (fun _ => True) Built := by
    constructor
    · exact fun _ _ _ _ below => .element below
    · exact fun _ _ => .text
    · exact fun _ _ _ => .comment
  exact (holds_of_readBytes closed (fun _ _ _ _ => trivial) read).1

end TemplateFill.Markup
