import TemplateFill.Proofs.Bookmark.Restored
import TemplateFill.Proofs.Fill.TextPass

/-!
# Bookmarks that remain to be filled

The text pass finds every bookmark that the template lists, unless filling another one has made away
with all its start markers.  Storing and reading the document in between loses none of them.
-/

namespace TemplateFill.Fill

open Markup Node Package Bookmark

section Pass

variable {root filled document : Node} {revised : Bool} {bookmark value name : String}
  {package : Package} {main : String} {entry : Entry} {entries rest : List Entry}

/-- The document in the main part when some entries have been filled in. -/
def documentAfter (main : String) (revised : Bool) (package : Package) (entries : List Entry) :
    Except Error Node := do
  (← package.fillBookmarks main revised entries).document main

theorem documentAfter_nil (holds : package.document main = .ok root) :
    documentAfter main revised package [] = .ok root := holds

theorem documentAfter_cons (holds : package.document main = .ok root)
    (success : substitute root revised entry.1 entry.2 = .ok filled) :
    documentAfter main revised package (entry :: rest) =
      documentAfter main revised (package.setDocument main filled) rest := by
  rw [documentAfter, fillBookmarks_cons holds success, documentAfter]

theorem fillBookmarks_of_refused {error : Error} (holds : package.document main = .ok root)
    (refused : substitute root revised entry.1 entry.2 = .error error) :
    package.fillBookmarks main revised (entry :: rest) = .error error := by
  rw [fillBookmarks, holds]
  simp only [bind, Except.bind, refused]

/-- After a substitution the pass goes on with what is read again. -/
private theorem exists_stored (resumable : Resumable root)
    (holds : package.document main = .ok root)
    (success : substitute root revised bookmark value = .ok filled) :
    ∃ again, (package.setDocument main filled).document main = .ok again ∧
      Resumed root bookmark again := by
  rcases exists_find?_of_document holds with ⟨index, found⟩
  rcases resumable.exists_resumed success with ⟨again, read, resumed⟩
  refine ⟨again, ?_, resumed⟩
  rw [document_setDocument found, read]
  rfl

/-- An entry that has been filled, and what the pass goes on with. -/
private theorem exists_of_documentAfter_cons (resumable : Resumable root)
    (holds : package.document main = .ok root)
    (reached : documentAfter main revised package (entry :: rest) = .ok document) :
    ∃ filled again, substitute root revised entry.1 entry.2 = .ok filled ∧
      (package.setDocument main filled).document main = .ok again ∧
      Resumed root entry.1 again ∧
      documentAfter main revised (package.setDocument main filled) rest = .ok document := by
  cases success : substitute root revised entry.1 entry.2 with
  | error error =>
      rw [documentAfter, fillBookmarks_of_refused holds success] at reached
      cases reached
  | ok filled =>
      rcases exists_stored resumable holds success with ⟨again, stored, next⟩
      rw [documentAfter_cons holds success] at reached
      exact ⟨filled, again, rfl, stored, next, reached⟩

/-- One of some entries is the first or a later one. -/
private theorem exists_entry_cons {holds : List Entry → Entry → List Entry → Prop} :
    (∃ before next after, entry :: rest = before ++ next :: after ∧ holds before next after) ↔
      holds [] entry rest ∨ ∃ before next after, rest = before ++ next :: after ∧
        holds (entry :: before) next after := by
  constructor
  · rintro ⟨before, next, after, split, held⟩
    rcases List.cons_eq_append_iff.1 split with ⟨rfl, same⟩ | ⟨others, rfl, same⟩
    · cases same
      exact .inl held
    · exact .inr ⟨others, next, after, same, held⟩
  · rintro (held | ⟨before, next, after, rfl, held⟩)
    · exact ⟨[], entry, rest, rfl, held⟩
    · exact ⟨entry :: before, next, after, rfl, held⟩

private theorem not_exists_entry_nil {holds : List Entry → Entry → List Entry → Prop} :
    ¬ ∃ before next after, ([] : List Entry) = before ++ next :: after ∧
      holds before next after := by
  rintro ⟨before, next, after, split, _⟩
  exact List.append_ne_nil_of_right_ne_nil _ (List.cons_ne_nil _ _) split.symm

/-- The pass reports a bookmark missing when it comes to its entry and finds no start marker. -/
theorem fillBookmarks_eq_markerNotFound_iff (resumable : Resumable root)
    (holds : package.document main = .ok root) :
    package.fillBookmarks main revised entries = .error (.markerNotFound name) ↔
      ∃ before next after, entries = before ++ next :: after ∧ next.1 = name ∧
        ∃ document, documentAfter main revised package before = .ok document ∧
          name ∉ names document := by
  induction entries generalizing package root with
  | nil => exact iff_of_false nofun not_exists_entry_nil
  | cons entry rest ih =>
      rw [exists_entry_cons, documentAfter_nil holds]
      simp only [Except.ok.injEq, exists_eq_left']
      cases success : substitute root revised entry.1 entry.2 with
      | error error =>
          have later : ∀ before, documentAfter main revised package (entry :: before) =
              .error error := by
            intro before
            rw [documentAfter, fillBookmarks_of_refused holds success]
            rfl
          have missing : substitute root revised entry.1 entry.2 =
              .error (.markerNotFound name) ↔ name = entry.1 ∧ name ∉ names root :=
            substitute_eq_markerNotFound_iff
          rw [success, Except.error.injEq, eq_comm (a := name)] at missing
          rw [fillBookmarks_of_refused holds success, Except.error.injEq, missing]
          simp only [later, reduceCtorEq, false_and, exists_false, and_false, or_false]
      | ok filled =>
          rcases exists_stored resumable holds success with ⟨again, stored, next⟩
          have here : ¬ (entry.1 = name ∧ name ∉ names root) := by
            rintro ⟨rfl, missing⟩
            rw [substitute_eq_markerNotFound_iff.2 ⟨rfl, missing⟩] at success
            cases success
          rw [fillBookmarks_cons holds success, ih next.resumable stored, or_iff_right here]
          simp only [documentAfter_cons holds success]

/-- A bookmark of the template is there for as long as no substitution has swallowed it. -/
theorem mem_names_of_documentAfter (resumable : Resumable root)
    (holds : package.document main = .ok root)
    (reached : documentAfter main revised package entries = .ok document) :
    name ∈ names document ↔ name ∈ names root ∧
      ¬ ∃ before next after, entries = before ++ next :: after ∧
        ∃ midway, documentAfter main revised package before = .ok midway ∧
          Swallows midway next.1 name := by
  induction entries generalizing package root with
  | nil =>
      rw [documentAfter_nil holds, Except.ok.injEq] at reached
      rw [reached]
      exact (and_iff_left not_exists_entry_nil).symm
  | cons entry rest ih =>
      rcases exists_of_documentAfter_cons resumable holds reached with
        ⟨filled, again, success, stored, next, later⟩
      rw [ih next.resumable stored later, next.names, exists_entry_cons,
        documentAfter_nil holds, not_or, and_assoc]
      simp only [Except.ok.injEq, exists_eq_left', documentAfter_cons holds success]

/-- No entry takes away a start marker outside of runs, tables and paragraph properties. -/
theorem startsAmong_lasting_documentAfter (resumable : Resumable root)
    (holds : package.document main = .ok root)
    (reached : documentAfter main revised package entries = .ok document) (name : String) :
    startsAmong Kind.isLasting name root.children ≤
      startsAmong Kind.isLasting name document.children := by
  induction entries generalizing package root with
  | nil =>
      rw [documentAfter_nil holds, Except.ok.injEq] at reached
      rw [reached]
  | cons entry rest ih =>
      rcases exists_of_documentAfter_cons resumable holds reached with
        ⟨filled, again, _, stored, next, later⟩
      exact (next.lasting name).trans (ih next.resumable stored later)

end Pass

/-! ## Bookmarks that are listed -/

/-- A package whose main part is written with legal names.  Below the root no paragraph, run or
placeholder has declarations, and the root is no placeholder. -/
structure LegalTemplate (package : Package) (main : String) (root : Node) : Prop where
  isMain : package.mainPart = .ok main
  holds : package.document main = .ok root
  legal : ∀ content ∈ package.get? main, LegalNames content
  silent : ∀ child ∈ root.children, EveryLabel Label.Silent child
  notHolder : root.kind ≠ .placeholder

theorem LegalTemplate.resumable {package : Package} {main : String} {root : Node}
    (template : LegalTemplate package main root) : Resumable root := by
  rcases exists_read_of_document template.holds with ⟨content, found, read⟩
  rcases writable_of_readBytes (template.legal content found) read with ⟨writable, element⟩
  exact ⟨writable, element, template.silent, template.notHolder⟩

/-- A template whose bookmarks are listed has no revisions, and they are those of its main part. -/
theorem of_templateBookmarks {package : Package} {main : String} {root : Node}
    {bookmarks : List String} (isMain : package.mainPart = .ok main)
    (holds : package.document main = .ok root)
    (listed : package.templateBookmarks .markup 0 = .ok bookmarks) :
    package.hasRevisionMarkup = .ok false ∧ bookmarks = names root := by
  have answer : Detector.markup.answer 0 package = package.hasRevisionMarkup := rfl
  rw [templateBookmarks, answer, isMain] at listed
  cases detected : package.hasRevisionMarkup with
  | error error =>
      rw [detected] at listed
      cases listed
  | ok revised =>
      cases revised with
      | true =>
          rw [detected] at listed
          cases listed
      | false =>
          refine ⟨rfl, ?_⟩
          rw [detected] at listed
          simp only [bind, Except.bind, Bool.false_eq_true, if_false, holds, pure,
            Except.pure] at listed
          split at listed
          · cases listed
          · exact (Except.ok.inj listed).symm

theorem mem_of_read {bookmarks : List String} {data : String} {values : Values} {entry : Entry}
    (valued : Values.read bookmarks data = .ok values) (member : entry ∈ values.entries) :
    entry.1 ∈ bookmarks := by
  rw [Values.read] at valued
  cases read : readEntries data with
  | error fault =>
      rw [read] at valued
      cases valued
  | ok entries =>
      rw [read] at valued
      cases valued
      simpa using (List.mem_filter.1 member).2

section Listed

variable {files : Files} {copy main data : String} {content : Bytes} {package : Package}
  {root : Node} {bookmarks : List String} {values : Values}

/-- A listed bookmark is reported missing exactly when the pass gets to its entry and an earlier
entry has swallowed it.  None is that has a start marker outside of runs, tables and paragraph
properties. -/
theorem fillTexts_markerNotFound_iff (readable : files.read copy = .ok content)
    (unpacked : Package.ofBytes content = .ok package)
    (template : LegalTemplate package main root)
    (listed : package.templateBookmarks .markup 0 = .ok bookmarks)
    (valued : Values.read bookmarks data = .ok values) (name : String) :
    ((onFiles (fillTexts .markup values copy) files).1 = .error (.markerNotFound name) ↔
      ∃ before next between value after,
        values.entries = before ++ next :: between ++ (name, value) :: after ∧
        (∃ midway, documentAfter main false package before = .ok midway ∧
          Swallows midway next.1 name) ∧
        ∃ document, documentAfter main false package (before ++ next :: between) = .ok document) ∧
    (0 < startsAmong Kind.isLasting name root.children →
      (onFiles (fillTexts .markup values copy) files).1 ≠ .error (.markerNotFound name)) := by
  rcases of_templateBookmarks template.isMain template.holds listed with ⟨detected, rfl⟩
  have resumable := template.resumable
  have texts := onFiles_fillTexts readable unpacked template.isMain
    (show Detector.markup.answer 1 package = .ok false from detected) values
  have reports : (onFiles (fillTexts .markup values copy) files).1 = .error (.markerNotFound name) ↔
      package.fillBookmarks main false values.entries = .error (.markerNotFound name) := by
    rw [texts]
    cases package.fillBookmarks main false values.entries with
    | error error => exact Iff.of_eq (by simp)
    | ok filled =>
        rcases Files.exists_write readable filled.toBytes with ⟨next, written, _⟩
        simp only [onFiles_savePackage written]
        exact iff_of_false nofun nofun
  rw [ne_eq, reports, fillBookmarks_eq_markerNotFound_iff resumable template.holds]
  constructor
  · constructor
    · rintro ⟨before, ⟨first, value⟩, after, split, same, document, reached, missing⟩
      obtain rfl : name = first := same.symm
      have inTemplate : name ∈ names root :=
        mem_of_read valued (split ▸ List.mem_append_right before List.mem_cons_self)
      rw [mem_names_of_documentAfter resumable template.holds reached] at missing
      rcases not_and_not_right.1 missing inTemplate with ⟨front, next, between, rfl, swallowed⟩
      exact ⟨front, next, between, value, after, split, swallowed, document, reached⟩
    · rintro ⟨front, next, between, value, after, split, swallowed, document, reached⟩
      refine ⟨_, (name, value), after, split, rfl, document, reached, ?_⟩
      rw [mem_names_of_documentAfter resumable template.holds reached]
      exact fun both => both.2 ⟨front, next, between, rfl, swallowed⟩
  · rintro lasting ⟨before, next, after, split, _, document, reached, missing⟩
    apply missing
    rw [mem_names_iff]
    calc 0
      _ < startsAmong Kind.isLasting name root.children := lasting
      _ ≤ startsAmong Kind.isLasting name document.children :=
        startsAmong_lasting_documentAfter resumable template.holds reached name
      _ ≤ startCount name document.children := startsAmong_le_startCount document.children

end Listed

/-! ## A bookmark in a table -/

/-- A word with a qualifier that is not the usual one. -/
def otherName (localName : String) : QName := ⟨some Namespace.word, some "q", localName⟩

/-- The markers of a bookmark and what is between them. -/
def markedAs (name : String → QName) (id bookmark : String) (middle : List Node) : List Node :=
  startOf name name id bookmark :: middle ++ [stopOf name name id]

def paragraphOf (attrs : List Attr) (children : List Node) : Node :=
  .element (wordName "p") attrs children

def bodyOf (children : List Node) : Node :=
  .element (wordName "body") [declarationOf "w" Namespace.word] children

/-- A body with a bookmark in a table in another bookmark. -/
def tabled : Node :=
  let cell := .element (wordName "tc") [] [paragraphOf [] (markedAs wordName "2" "b" [])]
  bodyOf (markedAs wordName "1" "a"
    [.element (wordName "tbl") [] [.element (wordName "tr") [] [cell]]])

/-- A text is in the place of the table. -/
def untabled : Node :=
  bodyOf (markedAs wordName "1" "a" [paragraphOf [] [runOf wordName "x"]])

theorem readable_tabled : Readable [] tabled :=
  readable_of_labels (by decide) (LoneTexts.textsAlone (by decide) (by decide))

theorem readable_untabled : Readable [] untabled :=
  readable_of_labels (by decide) (LoneTexts.textsAlone (by decide) (by decide))

theorem substitute_tabled : substitute tabled false "a" "x" = .ok untabled := rfl

theorem length_tabled : tabled.toBytes.length < 2 ^ 31 := by decide +kernel

theorem document_tabled :
    (lonePackage tabled.toBytes).document Package.usualMainPart = .ok tabled :=
  document_lonePackage rfl (readable_tabled.readText_toDocument rfl)

/-- Data with a value for either bookmark. -/
def twoData : String :=
  "<data><bookmark name=\"a\">x</bookmark><bookmark name=\"b\">y</bookmark></data>"

theorem read_twoData {bookmarks : List String} (first : "a" ∈ bookmarks)
    (second : "b" ∈ bookmarks) : Values.read bookmarks twoData = .ok twoValues := by
  have entries : readEntries twoData = .ok twoValues.entries := by decide +kernel
  rw [Values.read, entries]
  simp [Except.map, Values.ofEntries, twoValues, first, second]

/-- In a package with a main part only there is nothing else to look for revisions in. -/
theorem hasRevisionMarkup_lonePackage {content : Bytes} {root : Node}
    (holds : (lonePackage content).document Package.usualMainPart = .ok root) :
    (lonePackage content).hasRevisionMarkup = .ok root.hasRevisions := by
  have unrelated : (lonePackage content).relationships Package.usualMainPart = .ok [] := by
    have absent : (lonePackage content).has (PartName.relationshipsOf Package.usualMainPart) =
        false := by
      rw [Package.has, find?_lonePackage_congr]
      decide +kernel
    rw [Package.relationships, absent]
    rfl
  have alone : ∀ types,
      (lonePackage content).partsOfTypes Package.usualMainPart types = .ok [] := by
    intro types
    induction types with
    | nil => rfl
    | cons type rest ih =>
        rw [Package.partsOfTypes, Package.relatedParts, unrelated, ih]
        rfl
  rw [Package.hasRevisionMarkup, mainPart_lonePackage]
  simp only [bind, Except.bind, alone, Package.anyRevised, holds]
  cases root.hasRevisions <;> rfl

theorem templateBookmarks_lonePackage {content : Bytes} {root : Node}
    (holds : (lonePackage content).document Package.usualMainPart = .ok root)
    (unrevised : root.hasRevisions = false) (listed : names root ≠ []) :
    (lonePackage content).templateBookmarks .markup 0 = .ok (names root) := by
  have answer : Detector.markup.answer 0 (lonePackage content) = .ok false := by
    rw [← unrevised]
    exact hasRevisionMarkup_lonePackage holds
  rw [Package.templateBookmarks, answer, mainPart_lonePackage]
  simp only [bind, Except.bind, Bool.false_eq_true, if_false, holds]
  cases found : names root with
  | nil => exact absurd found listed
  | cons => rfl

/-- Filling the outer bookmark takes away the one in the table, and so it is reported missing; the
outer one is not. -/
theorem fillTexts_tabled :
    (copyOf (lonePackage tabled.toBytes).toBytes).read "copy" =
        .ok (lonePackage tabled.toBytes).toBytes ∧
      Package.ofBytes (lonePackage tabled.toBytes).toBytes = .ok (lonePackage tabled.toBytes) ∧
      LegalTemplate (lonePackage tabled.toBytes) Package.usualMainPart tabled ∧
      (lonePackage tabled.toBytes).templateBookmarks .markup 0 = .ok ["a", "b"] ∧
      Values.read ["a", "b"] twoData = .ok twoValues ∧
      0 < startsAmong Kind.isLasting "a" tabled.children ∧
      (onFiles (fillTexts .markup twoValues "copy")
        (copyOf (lonePackage tabled.toBytes).toBytes)).1 = .error (.markerNotFound "b") ∧
      (onFiles (fillTexts .markup twoValues "copy")
        (copyOf (lonePackage tabled.toBytes).toBytes)).1 ≠ .error (.markerNotFound "a") := by
  have readable := read_copyOf (lonePackage tabled.toBytes).toBytes
  have unpacked := ofBytes_lonePackage length_tabled
  have template : LegalTemplate (lonePackage tabled.toBytes) Package.usualMainPart tabled := by
    refine ⟨mainPart_lonePackage _, document_tabled, ?_, by decide, by decide⟩
    intro content found
    rw [Package.get?, find?_lonePackage] at found
    cases found
    exact legalNames_toBytes (by decide +kernel)
  have listed : (lonePackage tabled.toBytes).templateBookmarks .markup 0 = .ok ["a", "b"] :=
    templateBookmarks_lonePackage document_tabled rfl (List.cons_ne_nil _ _)
  have valued : Values.read ["a", "b"] twoData = .ok twoValues :=
    read_twoData (by decide) (by decide)
  have swallowed : Swallows tabled "a" "b" := ⟨_, rfl, by decide, by decide, by decide⟩
  have reached : documentAfter Package.usualMainPart false (lonePackage tabled.toBytes)
      [("a", "x")] = .ok untabled := by
    rw [documentAfter_cons document_tabled substitute_tabled, setDocument_lonePackage]
    exact document_lonePackage rfl (readable_untabled.readText_toDocument rfl)
  have settled := fillTexts_markerNotFound_iff readable unpacked template listed valued
  have lasting : 0 < startsAmong Kind.isLasting "a" tabled.children := by decide
  exact ⟨readable, unpacked, template, listed, valued, lasting,
    (settled "b").1.2 ⟨[], ("a", "x"), [], "y", [], rfl,
      ⟨tabled, documentAfter_nil document_tabled, swallowed⟩, untabled, reached⟩,
    (settled "a").2 lasting⟩

/-! ## Bookmarks that are reported missing -/

/-- A main part with two bookmarks that are listed, of which the pass over a value for each reports
the second missing. -/
structure Misses (content : Bytes) : Prop where
  unpacked : Package.ofBytes (lonePackage content).toBytes = .ok (lonePackage content)
  listed : ∃ bookmarks, (lonePackage content).templateBookmarks .markup 0 = .ok bookmarks ∧
    Values.read bookmarks twoData = .ok twoValues
  missing : (onFiles (fillTexts .markup twoValues "copy")
    (copyOf (lonePackage content).toBytes)).1 = .error (.markerNotFound "b")

/-- Where there are no revisions the pass does what it does when it is told so. -/
theorem onFiles_fillTexts_markup {content : Bytes}
    (unpacked : Package.ofBytes (lonePackage content).toBytes = .ok (lonePackage content))
    (detected : Detector.markup.answer 1 (lonePackage content) = .ok false) :
    onFiles (fillTexts .markup twoValues "copy") (copyOf (lonePackage content).toBytes) =
      fillLone content := by
  have none : (Detector.prepared [false]).answer 1 (lonePackage content) = .ok false := rfl
  rw [fillLone, onFiles_fillTexts (read_copyOf _) unpacked (mainPart_lonePackage _) detected,
    onFiles_fillTexts (read_copyOf _) unpacked (mainPart_lonePackage _) none]

/-- The bookmarks that are read back when the first has been filled. -/
def namesAfter (root : Node) : Except Error (List String) := do
  let filled ← substitute root false "a" "x"
  let again ← (Markup.readText filled.toDocument).mapError .markup
  return names again

theorem exists_of_namesAfter {root : Node} {rest : List String}
    (left : namesAfter root = .ok rest) :
    ∃ filled again, substitute root false "a" "x" = .ok filled ∧
      Markup.readText filled.toDocument = .ok again ∧ names again = rest := by
  rw [namesAfter] at left
  cases success : substitute root false "a" "x" with
  | error error =>
      rw [success] at left
      cases left
  | ok filled =>
      cases again : Markup.readText filled.toDocument with
      | error fault =>
          simp only [bind, Except.bind, success, again, Except.mapError] at left
          cases left
      | ok two =>
          simp only [bind, Except.bind, success, again, Except.mapError] at left
          exact ⟨filled, two, rfl, again, Except.ok.inj left⟩

/-- Where the second bookmark is not among those, it is missing. -/
theorem misses_of_names {text : List Char} {root : Node} {rest : List String}
    (front : text.head? = some '<') (small : (Utf8.encode text).length < 2 ^ 31)
    (read : Markup.readText text = .ok root) (unrevised : root.hasRevisions = false)
    (first : "a" ∈ names root) (second : "b" ∈ names root)
    (left : namesAfter root = .ok rest) (lost : "b" ∉ rest) : Misses (Utf8.encode text) := by
  have holds := document_lonePackage front read
  have unpacked := ofBytes_lonePackage small
  have detected : Detector.markup.answer 1 (lonePackage (Utf8.encode text)) = .ok false := by
    rw [← unrevised]
    exact hasRevisionMarkup_lonePackage holds
  rcases exists_of_namesAfter left with ⟨filled, again, success, reread, rfl⟩
  have stops : ((Markup.readText filled.toDocument).mapError .markup >>= fun again =>
      substitute again false "b" "y") = .error (.markerNotFound "b") := by
    rw [reread]
    exact substitute_eq_markerNotFound_iff.2 ⟨rfl, lost⟩
  refine ⟨unpacked, ⟨names root, ?_, read_twoData first second⟩, ?_⟩
  · exact templateBookmarks_lonePackage holds unrevised (List.ne_nil_of_mem first)
  · rw [onFiles_fillTexts_markup unpacked detected, fillLone_eq unpacked holds success stops]

/-- A bookmark in a paragraph whose mark another bookmark drops, and with it the declaration of a
qualifier. -/
def declaredInMark : Node :=
  bodyOf [paragraphOf [declarationOf "q" Namespace.word] (startOf wordName wordName "1" "a" ::
    markedAs otherName "2" "b" []), paragraphOf [] [stopOf wordName wordName "1"]]

theorem misses_declaredInMark : Misses (Utf8.encode declaredInMark.write) :=
  misses_of_names rfl (by decide +kernel) (Markup.readText_of_outline (by decide +kernel)) rfl
    (by decide) (by decide) (show namesAfter declaredInMark = .ok ["a"] by decide +kernel)
    (by decide)

/-- A bookmark in the formatting of a run that has the declaration.  The formatting is kept. -/
def declaredInRun : Node :=
  let formatting := .element (wordName "rPr") [] (markedAs otherName "2" "b" [])
  bodyOf [paragraphOf [] (markedAs wordName "1" "a"
    [.element (wordName "r") [declarationOf "q" Namespace.word] [formatting]])]

theorem misses_declaredInRun : Misses (Utf8.encode declaredInRun.write) :=
  misses_of_names rfl (by decide +kernel) (Markup.readText_of_outline (by decide +kernel)) rfl
    (by decide) (by decide) (show namesAfter declaredInRun = .ok ["a"] by decide +kernel)
    (by decide)

/-- A bookmark in what is taken for a placeholder and has the declaration. -/
def declaredInHolder : Node :=
  bodyOf [paragraphOf [] (markedAs wordName "1" "a" [] ++
    [.element (QName.ofTerm Term.placeholder)
      [declarationOf "bm" Namespace.placeholder, declarationOf "q" Namespace.word]
      (markedAs otherName "2" "b" [])])]

theorem misses_declaredInHolder : Misses (Utf8.encode declaredInHolder.write) :=
  misses_of_names rfl (by decide +kernel) (Markup.readText_of_outline (by decide +kernel)) rfl
    (by decide) (by decide) (show namesAfter declaredInHolder = .ok ["a"] by decide +kernel)
    (by decide)

/-- A document whose root is taken for a placeholder and makes way for a run. -/
def held : Node :=
  .element (QName.ofTerm Term.placeholder)
    [declarationOf "bm" Namespace.placeholder, declarationOf "w" Namespace.word]
    [paragraphOf [] (markedAs wordName "1" "a" [] ++ markedAs wordName "2" "b" [])]

theorem misses_tabled : Misses tabled.toBytes :=
  misses_of_names rfl length_tabled (readable_tabled.readText_toDocument rfl) rfl
    (by decide) (by decide) (show namesAfter tabled = .ok ["a"] by decide +kernel) (by decide)

theorem misses_defaulted : Misses (Utf8.encode (defaulted colonName [] []).write) := by
  have read : Markup.readText (defaulted colonName [] []).write =
      .ok (defaulted (bareName (some Namespace.word)) [] []) :=
    Markup.readText_of_outline (by decide +kernel)
  exact misses_of_names rfl (by decide +kernel) read rfl (by decide) (by decide)
    (show namesAfter (defaulted (bareName (some Namespace.word)) [] []) = .ok [] by decide +kernel)
    (by decide)

theorem misses_held : Misses (Utf8.encode held.write) := by
  have read : Markup.readText held.write = .ok held :=
    Markup.readText_of_outline (by decide +kernel)
  exact misses_of_names rfl (by decide +kernel) read rfl (by decide) (by decide)
    (show namesAfter held = .ok [] by decide +kernel) (by decide)

/-- A bookmark is reported missing if it was in a table that is dropped, if its qualifier was
declared at a paragraph mark, a run or a placeholder that is replaced, if the keys of its markers
have a colon in front, and if it is below a root that is taken for a placeholder. -/
theorem misses_bookmarks : Misses tabled.toBytes ∧
    (Misses (Utf8.encode declaredInMark.write) ∧ Misses (Utf8.encode declaredInRun.write) ∧
      Misses (Utf8.encode declaredInHolder.write)) ∧
    Misses (Utf8.encode (defaulted colonName [] []).write) ∧ Misses (Utf8.encode held.write) :=
  ⟨misses_tabled, ⟨misses_declaredInMark, misses_declaredInRun, misses_declaredInHolder⟩,
    misses_defaulted, misses_held⟩

end TemplateFill.Fill
