import TemplateFill.Proofs.Markup.Canonical
import TemplateFill.Proofs.Markup.Declared

/-!
# Texts with legal names

If all names are legal as a text shows them, the document that is read from the text shows them in
the same way, its names have the namespaces of their scopes, and so it can be written and read
again.
-/

namespace TemplateFill

open Markup Text

namespace Markup

/-- A name as it is written: a simple name, or two with a colon between them. -/
def isQualifiedName (name : List Char) : Bool :=
  (splitName name).1.all isSimpleName && isSimpleName (splitName name).2

/-- The names in a tag are legal as they are written. -/
structure Tag.Legal (tag : Tag) : Prop where
  name : isQualifiedName tag.name = true
  keys : ∀ attr ∈ tag.attrs, isQualifiedName attr.key = true

instance : DecidablePred Tag.Legal := fun tag =>
  decidable_of_iff
    (isQualifiedName tag.name = true ∧ ∀ attr ∈ tag.attrs, isQualifiedName attr.key = true)
    ⟨fun both => ⟨both.1, both.2⟩, fun legal => ⟨legal.name, legal.keys⟩⟩

/-- A text in which the names of elements and attributes are legal as they are written. -/
def LegalText (text : List Char) : Prop := ∀ tag ∈ tagsOf (dropMark text), tag.Legal

instance : DecidablePred LegalText := fun text =>
  inferInstanceAs (Decidable (∀ tag ∈ tagsOf (dropMark text), tag.Legal))

/-- A part whose text has legal names. -/
def LegalNames (bytes : Bytes) : Prop := ∀ text, decodeText bytes = .ok text → LegalText text

/-- A document that is written with legal names. -/
theorem legalNames_toBytes {root : Node} (legal : LegalText root.toDocument) :
    LegalNames root.toBytes := by
  intro text decoded
  rw [decodeText_toBytes, Except.ok.injEq] at decoded
  rw [← decoded]
  exact legal

/-! ## Names -/

section Name

variable {name : List Char}

/-- A legal name is written as it was. -/
theorem ofParts_splitName (legal : isQualifiedName name = true) (ns : Option String) :
    (QName.ofParts ns ((splitName name).1.map String.ofList)
        (String.ofList (splitName name).2)).Legal ∧
      (QName.ofParts ns ((splitName name).1.map String.ofList)
        (String.ofList (splitName name).2)).written.toList = name := by
  rw [isQualifiedName, Bool.and_eq_true] at legal
  rcases legal with ⟨front, back⟩
  cases cut : cutFirst? ':' name with
  | none =>
      have split : splitName name = (none, name) := by rw [splitName, cut]
      rw [split] at back ⊢
      refine ⟨⟨by simpa [QName.ofParts] using back, ?_⟩, String.toList_ofList⟩
      intro qualifier none
      cases none
  | some parts =>
      rcases parts with ⟨qualifier, localName⟩
      have split : splitName name = (some qualifier, localName) := by rw [splitName, cut]
      rw [split] at front back ⊢
      have solid : String.ofList qualifier ≠ "" := by
        intro empty
        have chars := congrArg String.toList empty
        rw [String.toList_ofList] at chars
        rw [chars] at front
        cases front
      rw [QName.ofParts, Option.map_some, Option.filter_some, if_pos (decide_eq_true solid)]
      constructor
      · refine ⟨by simpa using back, ?_⟩
        rintro _ ⟨⟩
        simpa using front
      · rw [(cutFirst?_eq_some cut).1, QName.written]
        simp

theorem elementName_of_legal (legal : isQualifiedName name = true) (scopes : List Declarations) :
    (elementName scopes name).Legal ∧ (elementName scopes name).written.toList = name :=
  ofParts_splitName legal _

theorem attrName_of_legal (legal : isQualifiedName name = true) (scopes : List Declarations) :
    (attrName scopes name).Legal ∧ (attrName scopes name).written.toList = name :=
  ofParts_splitName legal _

/-- With a legal key an attribute without qualifier is in no namespace. -/
theorem plainIfBare_resolved {attr : RawAttr} (legal : isQualifiedName attr.key = true)
    (scopes : List Declarations) : (resolved scopes attr).PlainIfBare := by
  intro unqualified
  have bare : (splitName attr.key).1 = none := by
    cases qualified : (splitName attr.key).1 with
    | none => rfl
    | some qualifier =>
        rw [isQualifiedName, qualified, Bool.and_eq_true] at legal
        simp only [resolved, attrName, QName.ofParts, qualified, Option.map_some,
          Option.filter_eq_none_iff, Option.some.injEq, forall_eq'] at unqualified
        have empty : qualifier = [] := by
          have chars := congrArg String.toList
            (by simpa using unqualified : String.ofList qualifier = "")
          rwa [String.toList_ofList] at chars
        rw [empty] at legal
        cases legal.1
  simp only [resolved, attrName, bare, QName.IsAttrIn, QName.ofParts]
  rw [Option.map_none, Option.filter_none]
  by_cases declares : (splitName attr.key).2 = "xmlns".toList
  · have same : String.ofList (splitName attr.key).2 = "xmlns" := by
      rw [declares, String.ofList_toList]
    simp only [if_pos declares, if_pos same]
  · have apart : String.ofList (splitName attr.key).2 ≠ "xmlns" := by
      intro same
      apply declares
      rw [← same, String.toList_ofList]
    simp only [if_neg declares, if_neg apart]

end Name

/-! ## Keys -/

private theorem fresh_of_readAttr {known : List (List Char × Nat)} {start : Nat} {char : Char}
    {rest : List Char} {front : AttrFront} (read : readAttr known start char rest = .ok front) :
    known.lookup front.key = none := by
  have keyOf : ∀ {position : Nat} {key text : List Char},
      readValue start key position text = .ok front → front.key = key := by
    intro position key text read
    rw [readValue] at read
    split at read
    · cases read
    · split at read
      · split at read
        · cases read
        · cases read
          rfl
      · cases read
  rw [readAttr] at read
  split at read
  · split at read
    · cases read
    · rename_i fresh
      rw [keyOf read, fresh]
  · cases read

private theorem nodup_of_readAttrs {known : List (List Char × Nat)} {done attrs : List RawAttr}
    {position : Nat} {text : List Char} (distinct : (done.map (·.key)).Nodup)
    (isKnown : ∀ attr ∈ done, known.lookup attr.key ≠ none)
    (read : readAttrs known done position text = .ok attrs) : (attrs.map (·.key)).Nodup := by
  fun_induction readAttrs known done position text with
  | case1 =>
      cases read
      rw [List.map_reverse, List.nodup_reverse]
      exact distinct
  | case2 | case3 => cases read
  | case4 known done position text start char rest _ front one value _ ih =>
      have fresh := fresh_of_readAttr one
      refine ih ?_ ?_ read
      · rw [List.map_cons, List.nodup_cons]
        refine ⟨?_, distinct⟩
        intro member
        rcases List.mem_map.1 member with ⟨attr, among, same⟩
        apply isKnown attr among
        rw [same, fresh]
      · intro attr member
        by_cases same : attr.key = front.key
        · simp [same]
        · rw [List.lookup_cons, beq_false_of_ne same]
          rcases List.mem_cons.1 member with rfl | earlier
          · exact absurd rfl same
          · exact isKnown attr earlier

/-- No two attributes of a tag have the same key. -/
theorem nodup_of_mem_tagsOf {text : List Char} {tag : Tag} (member : tag ∈ tagsOf text) :
    (tag.attrs.map (·.key)).Nodup := by
  have ofRead : ∀ content, tag ∈ (Tag.read content).toOption → (tag.attrs.map (·.key)).Nodup := by
    intro content isTag
    cases read : Tag.read content with
    | error fault =>
        rw [read] at isTag
        cases isTag
    | ok other =>
        rw [read] at isTag
        cases isTag
        rw [Tag.read] at read
        cases found : readAttrs [] [] (byteLength (content.takeWhile (!isMarkupBlank ·)))
            (content.dropWhile (!isMarkupBlank ·)) with
        | error fault =>
            simp only [found] at read
            cases read
        | ok attrs =>
            simp only [found] at read
            cases read
            have noKeys : (([] : List RawAttr).map (·.key)).Nodup := List.nodup_nil
            exact nodup_of_readAttrs noKeys (List.forall_mem_nil _) found
  rw [tagsOf_eq] at member
  rcases List.mem_flatMap.1 member with ⟨lexeme, _, isTag⟩
  rw [Option.mem_toList] at isTag
  cases lexeme with
  | startTag content | emptyTag content => exact ofRead content isTag
  | _ => cases isTag

/-! ## Documents -/

/-- The element of a tag with legal names. -/
private theorem writable_element {scopes : List Declarations} {scope : Scope} {tag : Tag}
    {children : List Node} (legal : tag.Legal) (distinct : (tag.attrs.map (·.key)).Nodup)
    (inScope : scopes.flatten = spelledOut scope)
    (below : ∀ child ∈ children, ∀ scope,
      (tag.declarations :: scopes).flatten = spelledOut scope → Writable scope child) :
    Writable scope (.element (elementName (tag.declarations :: scopes) tag.name)
      (tag.attrsIn (tag.declarations :: scopes)) children) := by
  have attrsLegal : ∀ attr ∈ tag.attrsIn (tag.declarations :: scopes), attr.name.Legal := by
    intro attr member
    rcases List.mem_map.1 member with ⟨raw, among, rfl⟩
    exact (attrName_of_legal (legal.keys raw among) _).1
  have raws : (tag.attrsIn (tag.declarations :: scopes)).map Attr.raw = tag.attrs := by
    rw [Tag.attrsIn, List.map_map]
    refine (List.map_congr_left ?_).trans (List.map_id _)
    intro raw among
    simp only [Function.comp_apply, Attr.raw, id_eq]
    rw [(attrName_of_legal (legal.keys raw among) _).2, String.toList_ofList]
  have declared : tag.declarations =
      spelledOut (declarations (tag.attrsIn (tag.declarations :: scopes))) := by
    rw [← filterMap_declaration? attrsLegal, raws, Tag.declarations]
  have inner : (tag.declarations :: scopes).flatten =
      spelledOut (declarations (tag.attrsIn (tag.declarations :: scopes)) ++ scope) := by
    rw [List.flatten_cons, inScope, spelledOut_append, ← declared]
  constructor
  · refine Node.everyLabel_element.2 ⟨⟨(elementName_of_legal legal.name _).1, attrsLegal⟩, ?_⟩
    exact fun child member => (below child member _ inner).labels
  · refine Node.everyLabel_element.2 ⟨?_, fun child member => (below child member _ inner).distinct⟩
    have names : (((tag.attrsIn (tag.declarations :: scopes)).map (·.name)).map
        fun name => name.written.toList).Nodup := by
      have keys : ((tag.attrsIn (tag.declarations :: scopes)).map Attr.raw).map (·.key) =
          ((tag.attrsIn (tag.declarations :: scopes)).map (·.name)).map
            fun name => name.written.toList := by
        rw [List.map_map, List.map_map]
        rfl
      rw [← keys, raws]
      exact distinct
    exact List.Nodup.of_map _ names
  · refine .element (isElementIn_elementName inner _) ?_
      fun child member => (below child member _ inner).inScope
    intro attr member
    rcases List.mem_map.1 member with ⟨raw, among, rfl⟩
    exact isAttrIn_resolved inner (plainIfBare_resolved (legal.keys raw among) _)

/-- A document that has been read from a text with legal names can be written and read again. -/
theorem writable_of_readText {text : List Char} {root : Node} (legal : LegalText text)
    (read : readText text = .ok root) : Writable [] root ∧ root.isElement = true := by
  have closed : BuildsUp (fun tag => tag.Legal ∧ (tag.attrs.map (·.key)).Nodup)
      (fun scopes node => ∀ scope, scopes.flatten = spelledOut scope → Writable scope node) := by
    constructor
    · exact fun _ _ _ allowed below _ inScope =>
        writable_element allowed.1 allowed.2 inScope below
    · intro _ content _ _
      exact ⟨Node.everyLabel_text.2 trivial, Node.everyLabel_text.2 List.nodup_nil, .text⟩
    · intro _ content unended _ _
      exact ⟨Node.everyLabel_comment.2 unended, Node.everyLabel_comment.2 List.nodup_nil, .comment⟩
  have allowed : ∀ tag ∈ tagsOf (dropMark text), tag.Legal ∧ (tag.attrs.map (·.key)).Nodup :=
    fun tag member => ⟨legal tag member, nodup_of_mem_tagsOf member⟩
  rcases holds_of_readText closed allowed read with ⟨writable, element⟩
  exact ⟨writable [] rfl, element⟩

theorem writable_of_readBytes {bytes : Bytes} {root : Node} (legal : LegalNames bytes)
    (read : readBytes bytes = .ok root) : Writable [] root ∧ root.isElement = true := by
  rw [readBytes] at read
  split at read
  · rename_i text decoded
    exact writable_of_readText (legal text decoded) read
  · cases read

end Markup

end TemplateFill
