import TemplateFill.Markup.Writer
import TemplateFill.Proofs.Markup.Escape
import TemplateFill.Proofs.Markup.Legal

/-!
# Tags are read back

A tag of legal names, each attribute written once, is cut off where it has been closed, and its
name and attributes are read as they were, the values with their references resolved.
-/

namespace TemplateFill

open Markup Text

/-- An attribute as a tag shows it, with its value unescaped. -/
def Attr.raw (attr : Attr) : RawAttr := ⟨attr.name.written.toList, attr.value.toList⟩

namespace Markup

/-! ## Where a tag ends -/

/-- Outside quotes, characters that are no quote and no closing bracket belong to the tag. -/
theorem cutTag_plain {front : List Char} (free : ∀ divider ∈ ['\'', '"', '>'], divider ∉ front)
    (rest : List Char) :
    cutTag none (front ++ rest) =
      (cutTag none rest).map fun cut => (front ++ cut.1, cut.2) := by
  induction front with
  | nil => cases cut : cutTag none rest <;> simp [cut, Except.map]
  | cons char front ih =>
      have noClose : char ≠ '>' := by
        rintro rfl
        exact free '>' (by decide) List.mem_cons_self
      have noQuote : ¬ (char = '\'' ∨ char = '"') := by
        rintro (rfl | rfl)
        · exact free '\'' (by decide) List.mem_cons_self
        · exact free '"' (by decide) List.mem_cons_self
      have later : ∀ divider ∈ ['\'', '"', '>'], divider ∉ front :=
        fun divider divides member => free divider divides (List.mem_cons_of_mem char member)
      rw [List.cons_append, cutTag, if_neg noClose, if_neg noQuote, ih later]
      cases cutTag none rest <;> rfl

/-- A quoted text belongs to the tag. -/
theorem cutTag_quoted {content : List Char} (free : '"' ∉ content) (rest : List Char) :
    cutTag (some '"') (content ++ '"' :: rest) =
      (cutTag none rest).map fun cut => (content ++ '"' :: cut.1, cut.2) := by
  induction content with
  | nil => rfl
  | cons char content ih =>
      rw [List.mem_cons, not_or] at free
      rw [List.cons_append, cutTag, if_neg (Ne.symm free.1), ih free.2]
      cases cutTag none rest <;> rfl

end Markup

/-! ## What is written of a tag -/

section WriteTag

variable {name : QName} {attrs : List Attr}

/-- The quotes and the end of a tag are not in the names in it. -/
private theorem outside_of_divides {divider : Char} (divides : divider ∈ ['\'', '"', '>']) :
    isNameChar divider = false ∧ divider ≠ ':' ∧ divider ≠ ' ' ∧ divider ≠ '=' := by
  simp only [List.mem_cons, List.not_mem_nil, or_false] at divides
  rcases divides with rfl | rfl | rfl <;> decide

private theorem cutTag_attr {attr : Attr} (legal : attr.name.Legal) (rest : List Char) :
    cutTag none (attr.write ++ rest) =
      (cutTag none rest).map fun cut => (attr.write ++ cut.1, cut.2) := by
  have front : ∀ divider ∈ ['\'', '"', '>'],
      divider ∉ ' ' :: attr.name.written.toList ++ ['='] := by
    intro divider divides member
    rcases outside_of_divides divides with ⟨notName, notColon, notBlank, notEquals⟩
    simp only [List.cons_append, List.mem_cons, List.mem_append, List.not_mem_nil, or_false]
      at member
    rcases member with blank | written | equals
    · exact notBlank blank
    · exact legal.not_mem_written notName notColon written
    · exact notEquals equals
  have split : attr.write ++ rest = (' ' :: attr.name.written.toList ++ ['=']) ++
      ('"' :: (escape attr.value.toList ++ '"' :: rest)) := by
    simp [Attr.write]
  rw [split, cutTag_plain front, cutTag, if_neg (by decide), if_pos (by decide),
    cutTag_quoted (not_mem_escape (by decide) attr.value.toList)]
  cases cutTag none rest <;> simp [Except.map, Attr.write]

/-- The name and the attributes of a tag belong to it. -/
theorem cutTag_writeTag (legal : name.Legal) (attrsLegal : ∀ attr ∈ attrs, attr.name.Legal)
    (rest : List Char) :
    cutTag none (writeTag name attrs ++ rest) =
      (cutTag none rest).map fun cut => (writeTag name attrs ++ cut.1, cut.2) := by
  have front : ∀ divider ∈ ['\'', '"', '>'], divider ∉ name.written.toList := by
    intro divider divides
    rcases outside_of_divides divides with ⟨notName, notColon, _⟩
    exact legal.not_mem_written notName notColon
  have values : cutTag none (attrs.flatMap Attr.write ++ rest) =
      (cutTag none rest).map fun cut => (attrs.flatMap Attr.write ++ cut.1, cut.2) := by
    induction attrs with
    | nil => cases cut : cutTag none rest <;> simp [cut, Except.map]
    | cons attr attrs ih =>
        rw [List.forall_mem_cons] at attrsLegal
        rw [List.flatMap_cons, List.append_assoc, cutTag_attr attrsLegal.1, ih attrsLegal.2]
        cases cutTag none rest <;> simp [Except.map]
  rw [writeTag, List.append_assoc, cutTag_plain front, values]
  cases cutTag none rest <;> simp [Except.map]

/-- What is written of a tag does not end with a slash. -/
theorem getLast?_writeTag (legal : name.Legal) : (writeTag name attrs).getLast? ≠ some '/' := by
  intro last
  rw [writeTag] at last
  rcases List.eq_nil_or_concat attrs with rfl | ⟨front, attr, rfl⟩
  · rw [List.flatMap_nil, List.append_nil] at last
    exact legal.not_mem_written (by decide) (by decide) (List.mem_of_getLast? last)
  · have closed : attr.write.getLast? = some '"' := List.getLast?_concat
    rw [List.concat_eq_append, List.flatMap_append, List.flatMap_singleton, ← List.append_assoc,
      List.getLast?_append, closed] at last
    cases last

/-! ## The attributes of a tag -/

private theorem skipBlanks_cons {char : Char} (solid : isMarkupBlank char = false)
    (position : Nat) (rest : List Char) :
    skipBlanks position (char :: rest) = (position, char :: rest) := by
  simp [skipBlanks, solid]

private theorem readValue_quoted {content : List Char} (free : '"' ∉ content) (start position : Nat)
    (key rest : List Char) :
    ∃ stop, readValue start key position ('"' :: (content ++ '"' :: rest)) =
      .ok ⟨start, key, content, stop, rest⟩ := by
  have passes : ∀ char ∈ content, (char != '"') = true := by
    intro char member
    rw [bne_iff_ne]
    rintro rfl
    exact free member
  have taken : (content ++ '"' :: rest).takeWhile (· != '"') = content := by
    rw [List.takeWhile_append_of_pos passes, List.takeWhile_cons_of_neg (by decide),
      List.append_nil]
  have dropped : (content ++ '"' :: rest).dropWhile (· != '"') = '"' :: rest := by
    rw [List.dropWhile_append_of_pos passes, List.dropWhile_cons_of_neg (by decide)]
  rw [readValue, skipBlanks_cons (by decide)]
  simp only [or_true, if_true, taken, dropped]
  exact ⟨_, rfl⟩

private theorem readAttr_written {attr : Attr} (legal : attr.name.Legal)
    {known : List (List Char × Nat)} (fresh : known.lookup attr.raw.key = none) (start : Nat)
    {char : Char} {key : List Char} (named : attr.name.written.toList = char :: key)
    (rest : List Char) :
    ∃ stop, readAttr known start char
        (key ++ '=' :: '"' :: (escape attr.value.toList ++ '"' :: rest)) =
      .ok ⟨start, attr.raw.key, escape attr.value.toList, stop, rest⟩ := by
  have passes : ∀ char ∈ key, isKeyChar char = true := by
    intro inner member
    have among : inner ∈ attr.name.written.toList := by
      rw [named]
      exact List.mem_cons_of_mem char member
    have notBlank : isMarkupBlank inner = false := by
      rw [Bool.eq_false_iff]
      intro blank
      simp only [isMarkupBlank, Bool.or_eq_true, beq_iff_eq] at blank
      rcases blank with ((rfl | rfl) | rfl) | rfl <;>
        exact legal.not_mem_written (by decide) (by decide) among
    have notEquals : inner ≠ '=' := by
      rintro rfl
      exact legal.not_mem_written (by decide) (by decide) among
    simp [isKeyChar, notBlank, notEquals]
  have taken : ∀ rest, (key ++ '=' :: rest).takeWhile isKeyChar = key := by
    intro rest
    rw [List.takeWhile_append_of_pos passes, List.takeWhile_cons_of_neg (by decide),
      List.append_nil]
  have dropped : ∀ rest, (key ++ '=' :: rest).dropWhile isKeyChar = '=' :: rest := by
    intro rest
    rw [List.dropWhile_append_of_pos passes, List.dropWhile_cons_of_neg (by decide)]
  rw [Attr.raw, named] at fresh
  rw [readAttr]
  simp only [taken, dropped]
  rw [skipBlanks_cons (by decide)]
  simp only [fresh, Attr.raw, named]
  exact readValue_quoted (not_mem_escape (by decide) attr.value.toList) _ _ _ _

private theorem readAttrs_written {attr : Attr} (legal : attr.name.Legal)
    {known : List (List Char × Nat)} (fresh : known.lookup attr.raw.key = none)
    (done : List RawAttr) (position : Nat) (rest : List Char) :
    ∃ start stop, readAttrs known done position (attr.write ++ rest) =
      readAttrs ((attr.raw.key, start) :: known) (attr.raw :: done) stop rest := by
  rcases legal.exists_written with ⟨char, key, named, start⟩
  have solid : isMarkupBlank char = false := by
    rw [Bool.eq_false_iff]
    intro blank
    simp only [isMarkupBlank, Bool.or_eq_true, beq_iff_eq] at blank
    rcases blank with ((rfl | rfl) | rfl) | rfl <;> exact absurd start (by decide)
  have written : attr.write ++ rest =
      ' ' :: char :: (key ++ '=' :: '"' :: (escape attr.value.toList ++ '"' :: rest)) := by
    simp [Attr.write, named]
  have skipped : skipBlanks position (attr.write ++ rest) =
      (position + 1, char :: (key ++ '=' :: '"' :: (escape attr.value.toList ++ '"' :: rest))) := by
    have blank : isMarkupBlank ' ' = true := by decide
    simp [written, skipBlanks, blank, solid]
  rcases readAttr_written legal fresh (position + 1) named rest with ⟨stop, read⟩
  refine ⟨position + 1, stop, ?_⟩
  rw [readAttrs]
  split
  · rename_i skipped'
    rw [skipped] at skipped'
    cases skipped'
  · rename_i start' char' rest' skipped'
    rw [skipped] at skipped'
    cases skipped'
    split
    · rename_i read'
      rw [read] at read'
      cases read'
    · rename_i front' read'
      rw [read] at read'
      cases read'
      simp only [unescape_escape]
      rfl

private theorem readAttrs_flatMap (attrsLegal : ∀ attr ∈ attrs, attr.name.Legal)
    (distinct : (attrs.map Attr.raw |>.map RawAttr.key).Nodup) {known : List (List Char × Nat)}
    (fresh : ∀ attr ∈ attrs, known.lookup attr.raw.key = none) (done : List RawAttr)
    (position : Nat) :
    readAttrs known done position (attrs.flatMap Attr.write) =
      .ok (done.reverse ++ attrs.map Attr.raw) := by
  induction attrs generalizing known done position with
  | nil =>
      rw [List.flatMap_nil, readAttrs]
      simp [skipBlanks]
  | cons attr attrs ih =>
      rw [List.forall_mem_cons] at attrsLegal fresh
      rw [List.map_cons, List.map_cons, List.nodup_cons] at distinct
      rcases readAttrs_written attrsLegal.1 fresh.1 done position (attrs.flatMap Attr.write)
        with ⟨start, stop, step⟩
      have stillFresh : ∀ other ∈ attrs,
          List.lookup other.raw.key ((attr.raw.key, start) :: known) = none := by
        intro other member
        have apart : other.raw.key ≠ attr.raw.key := by
          intro same
          apply distinct.1
          rw [← same]
          exact List.mem_map_of_mem (List.mem_map_of_mem member)
        rw [List.lookup_cons, beq_false_of_ne apart]
        exact fresh.2 other member
      rw [List.flatMap_cons, step, ih attrsLegal.2 distinct.2 stillFresh]
      simp

/-- A written tag is read back. -/
theorem read_writeTag (legal : name.Legal) (attrsLegal : ∀ attr ∈ attrs, attr.name.Legal)
    (distinct : (attrs.map Attr.raw |>.map RawAttr.key).Nodup) :
    Tag.read (writeTag name attrs) = .ok ⟨name.written.toList, attrs.map Attr.raw⟩ := by
  have passes : ∀ char ∈ name.written.toList, (!isMarkupBlank char) = true := by
    intro char member
    rw [Bool.not_eq_true', Bool.eq_false_iff]
    intro blank
    simp only [isMarkupBlank, Bool.or_eq_true, beq_iff_eq] at blank
    rcases blank with ((rfl | rfl) | rfl) | rfl <;>
      exact legal.not_mem_written (by decide) (by decide) member
  have stops : (attrs.flatMap Attr.write).takeWhile (!isMarkupBlank ·) = [] ∧
      (attrs.flatMap Attr.write).dropWhile (!isMarkupBlank ·) = attrs.flatMap Attr.write := by
    cases attrs with
    | nil => exact ⟨rfl, rfl⟩
    | cons attr attrs => exact ⟨rfl, rfl⟩
  have taken : (writeTag name attrs).takeWhile (!isMarkupBlank ·) = name.written.toList := by
    rw [writeTag, List.takeWhile_append_of_pos passes, stops.1, List.append_nil]
  have dropped : (writeTag name attrs).dropWhile (!isMarkupBlank ·) =
      attrs.flatMap Attr.write := by
    rw [writeTag, List.dropWhile_append_of_pos passes, stops.2]
  have fresh : ∀ attr ∈ attrs, List.lookup attr.raw.key ([] : List (List Char × Nat)) = none :=
    fun _ _ => rfl
  rw [Tag.read]
  simp only [taken, dropped]
  rw [readAttrs_flatMap attrsLegal distinct fresh]
  rfl

end WriteTag

end TemplateFill
