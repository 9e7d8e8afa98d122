import TemplateFill.Proofs.Markup.Joining
import TemplateFill.Proofs.Markup.Scope

/-!
# Written nodes are read back

Each lexical unit of a written tree does one thing to the open elements.  By induction over the
tree the units of a node put this node, with its texts joined, behind the children of the innermost
open element, if its names are legal and have the namespaces of their scopes.
-/

namespace TemplateFill

open Markup Text

/-- The names of a label are legal, and so is the text of a comment. -/
def Label.Legal : Label → Prop
  | .element name attrs => name.Legal ∧ ∀ attr ∈ attrs, attr.name.Legal
  | .text _ => True
  | .comment content => IsCommentText content.toList

instance : DecidablePred Label.Legal
  | .element name attrs =>
      inferInstanceAs (Decidable (name.Legal ∧ ∀ attr ∈ attrs, attr.name.Legal))
  | .text _ => .isTrue trivial
  | .comment content => inferInstanceAs (Decidable (IsCommentText content.toList))

/-- No two attributes have one name. -/
def Label.DistinctAttrs (label : Label) : Prop := (label.attrs.map (·.name)).Nodup

instance : DecidablePred Label.DistinctAttrs := fun label =>
  inferInstanceAs (Decidable (label.attrs.map (·.name)).Nodup)

/-- The names of a label are legal, and the text of a comment does not hold the end of a
comment. -/
def Label.Writable : Label → Prop
  | .element name attrs => name.Legal ∧ ∀ attr ∈ attrs, attr.name.Legal
  | .text _ => True
  | .comment content => ¬ ['-', '-', '>'] <:+: content.toList

instance : DecidablePred Label.Writable
  | .element name attrs =>
      inferInstanceAs (Decidable (name.Legal ∧ ∀ attr ∈ attrs, attr.name.Legal))
  | .text _ => .isTrue trivial
  | .comment content => inferInstanceAs (Decidable (¬ ['-', '-', '>'] <:+: content.toList))

theorem Label.Legal.writable {label : Label} (legal : label.Legal) : label.Writable := by
  cases label with
  | element | text => exact legal
  | comment => exact IsCommentText.unended legal

/-- A tree whose written form is read as a tree with the same elements, in the scope of its
namespaces. -/
structure Writable (scope : Scope) (node : Node) : Prop where
  labels : Node.EveryLabel Label.Writable node
  distinct : Node.EveryLabel Label.DistinctAttrs node
  inScope : Scoped scope node

/-- A tree whose written form can be read back, in the scope of its namespaces. -/
structure Readable (scope : Scope) (node : Node) : Prop where
  legal : Node.EveryLabel Label.Legal node
  distinct : Node.EveryLabel Label.DistinctAttrs node
  texts : ∀ inner ∈ node.selfAndDescendants, TextsKept inner.children
  inScope : Scoped scope node

theorem Writable.child {scope : Scope} {name : QName} {attrs : List Attr} {children : List Node}
    {child : Node} (writable : Writable scope (.element name attrs children))
    (member : child ∈ children) : Writable (declarations attrs ++ scope) child := by
  constructor
  · exact writable.labels.child member
  · exact writable.distinct.child member
  · cases writable.inScope with
    | element nameIn attrsIn below => exact below child member

/-- An element can be written with other children that can be written there. -/
theorem Writable.withChildren {scope : Scope} {name : QName} {attrs : List Attr}
    {children others : List Node} (writable : Writable scope (.element name attrs children))
    (each : ∀ child ∈ others, Writable (declarations attrs ++ scope) child) :
    Writable scope (.element name attrs others) := by
  constructor
  · exact Node.everyLabel_element.2
      ⟨writable.labels.self, fun child member => (each child member).labels⟩
  · exact Node.everyLabel_element.2
      ⟨writable.distinct.self, fun child member => (each child member).distinct⟩
  · cases writable.inScope with
    | element nameIn attrsIn =>
        exact .element nameIn attrsIn fun child member => (each child member).inScope

theorem Readable.writable {scope : Scope} {node : Node} (readable : Readable scope node) :
    Writable scope node where
  labels inner member := (readable.legal inner member).writable
  distinct := readable.distinct
  inScope := readable.inScope

theorem Scoped.reread {scope : Scope} {node : Node} (inScope : Scoped scope node) :
    Scoped scope node.reread := by
  induction node using Node.treeInduction generalizing scope with
  | element name attrs children ih =>
      cases inScope with
      | element nameIn attrsIn below =>
          rw [Node.reread_element]
          refine .element nameIn attrsIn ?_
          intro child member
          have isChild : child ∈ (Node.element name attrs children).reread.children := member
          rcases Node.mem_children_reread isChild with ⟨content, rfl⟩ | ⟨source, among, rfl⟩
          · exact .text
          · exact ih source among (below source among)
  | text | comment => exact inScope

/-- What has been written can be written again after reading. -/
theorem Writable.reread {scope : Scope} {node : Node} (writable : Writable scope node) :
    Writable scope node.reread where
  labels := writable.labels.reread fun _ => trivial
  distinct := writable.distinct.reread fun _ => List.nodup_nil
  inScope := writable.inScope.reread

namespace Markup

namespace Frame

/-- The frame that a written start tag opens. -/
def opened (name : QName) (attrs : List Attr) : Frame :=
  { written := name.written.toList, name, attrs,
    declarations := spelledOut (TemplateFill.declarations attrs), children := [] }

/-- The frame with other children, the last one first. -/
def withChildren (frame : Frame) (children : List Node) : Frame := { frame with children }

/-- Texts that come one after the other are one text. -/
theorem pushText_append (frame : Frame) (front rest : List Char) :
    (frame.pushText front).pushText rest = frame.pushText (front ++ rest) := by
  have joined : String.ofList front ++ String.ofList rest = String.ofList (front ++ rest) := by
    rw [String.ofList_append]
  rw [pushText.eq_def frame front, pushText.eq_def frame (front ++ rest)]
  split
  · rename_i before others _
    show { frame with
      children := .text (before ++ String.ofList front ++ String.ofList rest) :: others } = _
    rw [String.append_assoc, joined]
  · show { frame with
      children := .text (String.ofList front ++ String.ofList rest) :: frame.children } = _
    rw [joined]
    rfl

theorem pushText_eq (frame : Frame) (content : String) :
    frame.pushText content.toList =
      frame.withChildren (Node.putText frame.children content) := by
  rcases frame with ⟨written, name, attrs, declarations, _ | ⟨last, others⟩⟩
  · rw [pushText, String.ofList_toList]
    rfl
  · cases last <;> rw [pushText, String.ofList_toList] <;> rfl

end Frame

namespace ReadState

/-- Taking the first unit of a text leaves the rest to take. -/
theorem takeAll_of_next {state next : ReadState} {char : Char} {rest after : List Char}
    {lexeme : Lexeme} (unit : Lexeme.next char rest = .ok (lexeme, after))
    (taken : state.take lexeme = .ok next) :
    state.takeAll (char :: rest) = next.takeAll after := by
  rw [takeAll]
  split
  · rename_i fault unit'
    rw [unit] at unit'
    cases unit'
  · rename_i lexeme' after' unit'
    rw [unit] at unit'
    cases unit'
    rw [taken]

/-! ## Texts -/

section Text

variable {frame : Frame} {outer : List Frame} {root : Option Node}

/-- A character that stands for itself can be taken before what follows it. -/
private theorem takeAll_plain {char : Char} (plain : Lexeme.isTextChar char = true)
    (rest : List Char) :
    takeAll ⟨frame :: outer, root⟩ (char :: rest) =
      takeAll ⟨frame.pushText [char] :: outer, root⟩ rest := by
  have unit : ∀ {char : Char}, Lexeme.isTextChar char = true → ∀ rest, Lexeme.next char rest =
      .ok (.text (char :: rest.takeWhile Lexeme.isTextChar),
        rest.dropWhile Lexeme.isTextChar) := by
    intro char plain rest
    rw [Lexeme.isTextChar, Bool.and_eq_true, bne_iff_ne, bne_iff_ne] at plain
    rw [Lexeme.next, if_neg plain.1, if_neg plain.2]
  rw [takeAll_of_next (unit plain rest) rfl]
  cases rest with
  | nil => rfl
  | cons next rest =>
      by_cases goesOn : Lexeme.isTextChar next = true
      · rw [takeAll_of_next (unit goesOn rest) rfl, List.takeWhile_cons_of_pos goesOn,
          List.dropWhile_cons_of_pos goesOn]
        simp only [pushText, Frame.pushText_append, List.singleton_append]
      · rw [List.takeWhile_cons_of_neg goesOn, List.dropWhile_cons_of_neg goesOn]
        rfl

private theorem takeAll_named {char : Char} {name : List Char}
    (known : (name, char) ∈ namedReferences) (rest : List Char) :
    takeAll ⟨frame :: outer, root⟩ ('&' :: name ++ [';'] ++ rest) =
      takeAll ⟨frame.pushText [char] :: outer, root⟩ rest := by
  have unit : Lexeme.next '&' (name ++ ';' :: rest) = .ok (.reference name, rest) := by
    rw [Lexeme.next, if_neg (by decide), if_pos rfl,
      cutReference?_of_known known (List.Subset.refl _)]
  have taken : take ⟨frame :: outer, root⟩ (.reference name) =
      .ok ⟨frame.pushText [char] :: outer, root⟩ := by
    rw [take, resolveReference?_of_known known]
    rfl
  rw [List.cons_append, List.cons_append, List.append_assoc, List.singleton_append,
    takeAll_of_next unit taken]

/-- The units of an escaped text put this text into the innermost element. -/
theorem takeAll_escape {content : List Char} (solid : content ≠ []) (after : List Char) :
    takeAll ⟨frame :: outer, root⟩ (escape content ++ after) =
      takeAll ⟨frame.pushText content :: outer, root⟩ after := by
  have first : ∀ (frame : Frame) (char : Char) (rest : List Char),
      takeAll ⟨frame :: outer, root⟩ (escapeChar char ++ rest) =
        takeAll ⟨frame.pushText [char] :: outer, root⟩ rest := by
    intro frame char rest
    rcases escapeChar_cases char with ⟨name, known, named⟩ | ⟨free, plain⟩
    · rw [named, takeAll_named known]
    · rw [plain, List.singleton_append, takeAll_plain]
      rw [Lexeme.isTextChar, Bool.and_eq_true, bne_iff_ne, bne_iff_ne]
      constructor <;> rintro rfl <;> exact free (by decide)
  induction content generalizing frame with
  | nil => exact absurd rfl solid
  | cons char content ih =>
      rw [escape_cons, List.append_assoc, first]
      cases content with
      | nil => rfl
      | cons next content =>
          rw [ih (List.cons_ne_nil next content), Frame.pushText_append, List.singleton_append]

end Text

/-! ## Comments -/

theorem takeAll_comment {frame : Frame} {outer : List Frame} {root : Option Node}
    {content : String} (unended : ¬ ['-', '-', '>'] <:+: content.toList) (after : List Char) :
    takeAll ⟨frame :: outer, root⟩ ((Node.comment content).write ++ after) =
      takeAll ⟨frame.push (.comment content) :: outer, root⟩ after := by
  have unit :
      Lexeme.next '<' ('!' :: '-' :: '-' :: (content.toList ++ (['-', '-', '>'] ++ after))) =
        .ok (.comment content.toList, after) := by
    have stripped : stripFront? ['!', '-', '-']
        ('!' :: '-' :: '-' :: (content.toList ++ (['-', '-', '>'] ++ after))) =
          some (content.toList ++ (['-', '-', '>'] ++ after)) :=
      stripFront?_append ['!', '-', '-'] _
    rw [Lexeme.next, if_pos rfl, Lexeme.nextMarkup]
    simp only [Lexeme.nextComment, stripped, Option.bind_some, cutPattern?_comment unended]
  have taken : take ⟨frame :: outer, root⟩ (.comment content.toList) =
      .ok ⟨frame.push (.comment content) :: outer, root⟩ := by
    simp [take, pushComment]
  have written : (Node.comment content).write ++ after =
      '<' :: '!' :: '-' :: '-' :: (content.toList ++ (['-', '-', '>'] ++ after)) := by
    simp [Node.write]
  rw [written, takeAll_of_next unit taken]

/-! ## Tags -/

section Tag

variable {name : QName} {attrs : List Attr}

private theorem next_tag (legal : name.Legal) (rest : List Char) :
    Lexeme.next '<' (writeTag name attrs ++ rest) =
      Lexeme.nextTag (writeTag name attrs ++ rest) := by
  rcases legal.exists_written with ⟨first, others, written, start⟩
  have front : writeTag name attrs ++ rest =
      first :: (others ++ (attrs.flatMap Attr.write ++ rest)) := by
    rw [writeTag, written, List.append_assoc, List.cons_append]
  rw [Lexeme.next, if_pos rfl, front, Lexeme.nextMarkup.eq_def]
  -- None of the marks that start other markup can start a name.
  split
  case h_1 nothing => cases nothing
  case h_2 same | h_3 same | h_4 same =>
    rw [(List.cons.inj same).1] at start
    exact absurd start (by decide)
  case h_5 => rfl

theorem next_startTag (legal : name.Legal) (attrsLegal : ∀ attr ∈ attrs, attr.name.Legal)
    (after : List Char) :
    Lexeme.next '<' (writeTag name attrs ++ '>' :: after) =
      .ok (.startTag (writeTag name attrs), after) := by
  rw [next_tag legal, Lexeme.nextTag, cutTag_writeTag legal attrsLegal, cutTag, if_pos rfl]
  simp only [Except.map, List.append_nil]
  rw [if_neg (getLast?_writeTag legal)]

theorem next_emptyTag (legal : name.Legal) (attrsLegal : ∀ attr ∈ attrs, attr.name.Legal)
    (after : List Char) :
    Lexeme.next '<' (writeTag name attrs ++ '/' :: '>' :: after) =
      .ok (.emptyTag (writeTag name attrs), after) := by
  have cut : cutTag none ('/' :: '>' :: after) = .ok (['/'], after) := rfl
  rw [next_tag legal, Lexeme.nextTag, cutTag_writeTag legal attrsLegal, cut]
  simp only [Except.map]
  rw [if_pos List.getLast?_concat, List.dropLast_concat]

theorem next_endTag (legal : name.Legal) (after : List Char) :
    Lexeme.next '<' ('/' :: (name.written.toList ++ '>' :: after)) =
      .ok (.endTag name.written.toList, after) := by
  have noAttrs : writeTag name [] = name.written.toList := by
    rw [writeTag, List.flatMap_nil, List.append_nil]
  have cut := cutTag_writeTag legal (List.forall_mem_nil _) ('>' :: after)
  rw [noAttrs, cutTag, if_pos rfl] at cut
  have trimmed : trimMarkupEnd name.written.toList = name.written.toList := by
    have solid : ∀ char ∈ name.written.toList, isMarkupBlank char = false := by
      intro char member
      rw [Bool.eq_false_iff]
      intro blank
      simp only [isMarkupBlank, Bool.or_eq_true, beq_iff_eq] at blank
      rcases blank with ((rfl | rfl) | rfl) | rfl <;>
        exact legal.not_mem_written (by decide) (by decide) member
    rcases List.eq_nil_or_concat name.written.toList with nothing | ⟨front, last, written⟩
    · rw [nothing]
      rfl
    · rw [written, List.concat_eq_append] at solid ⊢
      have lastSolid := solid last (by simp)
      simp [trimMarkupEnd, lastSolid]
  rw [Lexeme.next, if_pos rfl, Lexeme.nextMarkup, Lexeme.nextEndTag, cut]
  simp [Except.map, trimmed]

/-- A written tag opens its frame. -/
theorem openFrame_writeTag {scope : Scope} {state : ReadState} (legal : name.Legal)
    (attrsLegal : ∀ attr ∈ attrs, attr.name.Legal) (distinct : (attrs.map (·.name)).Nodup)
    (inScope : (state.frames.map (·.declarations)).flatten = spelledOut scope)
    (nameIn : name.IsElementIn (declarations attrs ++ scope))
    (attrsIn : ∀ attr ∈ attrs, attr.name.IsAttrIn (declarations attrs ++ scope))
    (room : (state.frames.isEmpty && state.root.isSome) = false) :
    state.openFrame (writeTag name attrs) = .ok (Frame.opened name attrs) := by
  have scopes : (spelledOut (declarations attrs) :: state.frames.map (·.declarations)).flatten =
      spelledOut (declarations attrs ++ scope) := by
    rw [List.flatten_cons, inScope, spelledOut_append]
  have attrsBack : (attrs.map Attr.raw).map (fun attr => (⟨attrName
      (spelledOut (declarations attrs) :: state.frames.map (·.declarations)) attr.key,
        String.ofList attr.value⟩ : Attr)) = attrs := by
    rw [List.map_map]
    refine (List.map_congr_left ?_).trans (List.map_id attrs)
    intro attr member
    simp only [Function.comp_apply, Attr.raw, id_eq]
    rw [attrName_written (attrsLegal attr member) scopes (attrsIn attr member),
      String.ofList_toList]
  rw [openFrame, read_writeTag legal attrsLegal (nodup_keys attrsLegal attrsIn distinct)]
  simp only [room, Bool.false_eq_true, if_false]
  rw [Frame.ofTag, Frame.opened]
  simp only [filterMap_declaration? attrsLegal, elementName_written legal scopes nameIn, attrsBack]

end Tag

/-! ## Nodes -/

/-- The units of siblings put them behind the children of the innermost element, if this is so for
each of them that is an element. -/
private theorem takeAll_writeAll {scope : Scope} {outer : List Frame} {root : Option Node}
    {nodes : List Node} (frame : Frame)
    (each : ∀ node ∈ nodes, node.isElement = true → ∀ frame : Frame,
      ((frame :: outer).map (·.declarations)).flatten = spelledOut scope → ∀ after,
      takeAll ⟨frame :: outer, root⟩ (node.write ++ after) =
        takeAll ⟨frame.push node.reread :: outer, root⟩ after)
    (inScope : ((frame :: outer).map (·.declarations)).flatten = spelledOut scope)
    (labels : ∀ node ∈ nodes, node.label.Writable) (after : List Char) :
    takeAll ⟨frame :: outer, root⟩ (Node.writeAll nodes ++ after) =
      takeAll ⟨frame.withChildren (Node.rereadAll frame.children nodes) :: outer, root⟩ after := by
  induction nodes generalizing frame with
  | nil => rfl
  | cons node rest ih =>
      rw [List.forall_mem_cons] at each labels
      have one : takeAll ⟨frame :: outer, root⟩ (node.write ++ (Node.writeAll rest ++ after)) =
          takeAll ⟨frame.withChildren (Node.putBehind frame.children node.reread) :: outer, root⟩
            (Node.writeAll rest ++ after) := by
        cases node with
        | element name attrs children => exact each.1 rfl frame inScope _
        | text content =>
            have stays : (Node.text content).reread = .text content := rfl
            rw [stays, Node.putBehind, Node.write]
            split
            · rename_i empty
              rw [empty]
              rfl
            · rename_i filled
              have solid : content.toList ≠ [] := fun nothing =>
                filled (String.toList_eq_nil_iff.1 nothing)
              rw [takeAll_escape solid, Frame.pushText_eq]
        | comment content => exact takeAll_comment labels.1 _
      rw [Node.writeAll, List.append_assoc, one,
        ih (frame.withChildren (Node.putBehind frame.children node.reread)) each.2 inScope labels.2]
      rfl

section Element

variable {name : QName} {attrs : List Attr} {frames : List Frame} {root : Option Node}

/-- An element without children is one unit. -/
private theorem takeAll_leaf (legal : name.Legal) (attrsLegal : ∀ attr ∈ attrs, attr.name.Legal)
    (opens : openFrame ⟨frames, root⟩ (writeTag name attrs) = .ok (Frame.opened name attrs))
    (after : List Char) :
    takeAll ⟨frames, root⟩ ((Node.element name attrs []).write ++ after) =
      takeAll (place frames root (.element name attrs [])) after := by
  have written : (Node.element name attrs []).write ++ after =
      '<' :: (writeTag name attrs ++ '/' :: '>' :: after) := by
    simp [Node.write]
  have taken : take ⟨frames, root⟩ (.emptyTag (writeTag name attrs)) =
      .ok (place frames root (.element name attrs [])) := by
    rw [take, opens]
    rfl
  rw [written, takeAll_of_next (next_emptyTag legal attrsLegal after) taken]

/-- The start tag opens a frame, the children fill it and the end tag closes it. -/
private theorem takeAll_parent {children : List Node} (filled : children ≠ []) (legal : name.Legal)
    (attrsLegal : ∀ attr ∈ attrs, attr.name.Legal)
    (opens : openFrame ⟨frames, root⟩ (writeTag name attrs) = .ok (Frame.opened name attrs))
    (fills : ∀ after, takeAll ⟨Frame.opened name attrs :: frames, root⟩
        (Node.writeAll children ++ after) =
      takeAll ⟨(Frame.opened name attrs).withChildren (Node.rereadAll [] children) :: frames, root⟩
        after) (after : List Char) :
    takeAll ⟨frames, root⟩ ((Node.element name attrs children).write ++ after) =
      takeAll (place frames root (Node.element name attrs children).reread) after := by
  have written : (Node.element name attrs children).write ++ after =
      '<' :: (writeTag name attrs ++ '>' :: (Node.writeAll children ++
        '<' :: '/' :: (name.written.toList ++ '>' :: after))) := by
    cases children with
    | nil => exact absurd rfl filled
    | cons child rest => simp [Node.write, Node.writeAll]
  have opened : take ⟨frames, root⟩ (.startTag (writeTag name attrs)) =
      .ok ⟨Frame.opened name attrs :: frames, root⟩ := by
    rw [take, opens]
    rfl
  have closed : take ⟨(Frame.opened name attrs).withChildren
        (Node.rereadAll [] children) :: frames, root⟩ (.endTag name.written.toList) =
      .ok (place frames root (Node.element name attrs children).reread) := by
    have same : name.written.toList = ((Frame.opened name attrs).withChildren
        (Node.rereadAll [] children)).written := rfl
    rw [take, close]
    simp only
    rw [if_pos same]
    rfl
  rw [written, takeAll_of_next (next_startTag legal attrsLegal _) opened, fills,
    takeAll_of_next (next_endTag legal after) closed]

end Element

/-- The units of a written element put it where it belongs. -/
theorem takeAll_write {scope : Scope} {node : Node} (writable : Writable scope node)
    (element : node.isElement = true) {frames : List Frame} {root : Option Node}
    (inScope : (frames.map (·.declarations)).flatten = spelledOut scope)
    (room : (frames.isEmpty && root.isSome) = false) (after : List Char) :
    takeAll ⟨frames, root⟩ (node.write ++ after) =
      takeAll (place frames root node.reread) after := by
  induction node using Node.treeInduction generalizing scope frames root after with
  | text | comment => cases element
  | element name attrs children ih =>
      rcases (Node.everyLabel_element.1 writable.labels).1 with ⟨legal, attrsLegal⟩
      have distinct : (attrs.map (·.name)).Nodup := (Node.everyLabel_element.1 writable.distinct).1
      have names : name.IsElementIn (declarations attrs ++ scope) ∧
          ∀ attr ∈ attrs, attr.name.IsAttrIn (declarations attrs ++ scope) := by
        cases writable.inScope with
        | element nameIn attrsIn => exact ⟨nameIn, attrsIn⟩
      have opens : openFrame ⟨frames, root⟩ (writeTag name attrs) =
          .ok (Frame.opened name attrs) :=
        openFrame_writeTag legal attrsLegal distinct inScope names.1 names.2 room
      by_cases leaf : children = []
      · rw [leaf]
        exact takeAll_leaf legal attrsLegal opens after
      · have inner : ((Frame.opened name attrs :: frames).map (·.declarations)).flatten =
            spelledOut (declarations attrs ++ scope) := by
          rw [List.map_cons, List.flatten_cons, inScope, spelledOut_append]
          rfl
        have each : ∀ node ∈ children, node.isElement = true → ∀ frame : Frame,
            ((frame :: frames).map (·.declarations)).flatten =
              spelledOut (declarations attrs ++ scope) → ∀ after,
            takeAll ⟨frame :: frames, root⟩ (node.write ++ after) =
              takeAll ⟨frame.push node.reread :: frames, root⟩ after := by
          intro node member isElement frame inScope after
          exact ih node member (writable.child member) isElement inScope rfl after
        have labels : ∀ node ∈ children, node.label.Writable :=
          fun node member => (writable.child member).labels.self
        exact takeAll_parent leaf legal attrsLegal opens
          (takeAll_writeAll (Frame.opened name attrs) each inner labels) after

end ReadState

end Markup

end TemplateFill
