import TemplateFill.Proofs.Archive.ReadBack
import TemplateFill.Proofs.Files.Writing
import TemplateFill.Proofs.Markup.Outline
import TemplateFill.Proofs.Package.Storing

/-!
# Substituting in a working copy

The texts of a template are filled in by reading and storing its main part for every value.  If
its declarations are at the root and its texts stand alone, that gives the document which
substituting all values in memory gives.
-/

namespace TemplateFill.Fill

open Node

/-- The result of an action on files in memory, and the files afterwards. -/
def onFiles {α : Type} (action : ExceptT Error (StateM Files) α) (files : Files) :
    Except Error α × Files :=
  action.run.run files

section Run

variable {files next : Files} {copy main : String} {content : Bytes} {package : Package}
  {detector : Detector} {values : Values} {revised : Bool}

theorem onFiles_openPackage (readable : files.read copy = .ok content)
    (unpacked : Package.ofBytes content = .ok package) :
    onFiles (openPackage copy) files = (.ok package, files) := by
  have opened : onFiles (liftM (FileAccess.read copy : StateM Files (Except FileFault Bytes)))
      files = (.ok (.ok content), files) := by
    show (Except.ok (files.read copy), files) = _
    rw [readable]
  rw [onFiles] at opened
  rw [onFiles, openPackage, ExceptT.run_bind, StateT.run_bind, opened]
  show onFiles (ofExcept (Package.ofBytes content)) files = _
  rw [unpacked]
  rfl

theorem onFiles_savePackage (written : files.write copy package.toBytes = .ok next) :
    onFiles (savePackage copy package) files = (.ok (), next) := by
  have changed : (FileAccess.write copy package.toBytes :
      StateM Files (Except FileFault Unit)).run files = (.ok (), next) := by
    show Files.change (·.write copy package.toBytes) files = _
    rw [Files.change, written]
  rw [onFiles, savePackage, use, ExceptT.run_mk, StateT.run_bind, changed]
  rfl

/-- Filling in texts substitutes the values in the main part and saves the package. -/
theorem onFiles_fillTexts (readable : files.read copy = .ok content)
    (unpacked : Package.ofBytes content = .ok package) (isMain : package.mainPart = .ok main)
    (detected : detector.answer 1 package = .ok revised) (values : Values) :
    onFiles (fillTexts detector values copy) files =
      match package.fillBookmarks main revised values.entries with
      | .ok filled => onFiles (savePackage copy filled) files
      | .error error => (.error error, files) := by
  have opened := onFiles_openPackage readable unpacked
  rw [onFiles] at opened
  rw [onFiles, fillTexts, ExceptT.run_bind, StateT.run_bind, opened]
  show onFiles (do
      let main ← ofExcept package.mainPart
      let revised ← ofExcept (detector.answer 1 package)
      let filled ← ofExcept (package.fillBookmarks main revised values.entries)
      savePackage copy filled) files = _
  rw [isMain, detected]
  show onFiles (do
      let filled ← ofExcept (package.fillBookmarks main revised values.entries)
      savePackage copy filled) files = _
  cases package.fillBookmarks main revised values.entries <;> rfl

theorem marked_eq (values : Values) (mark : String) :
    values.marked mark =
      ⟨(values.entries.map (·.2)).filter fun value => mark.toList <+: value.toList⟩ := by
  have starts : ∀ value : String, mark.toList.isPrefixOf value.toList =
      decide (mark.toList <+: value.toList) := by
    intro value
    rw [Bool.eq_iff_iff, List.isPrefixOf_iff_prefix, decide_eq_true_iff]
  simp only [Values.marked, starts]

/-- When the texts have been filled in, the marked values wait for their chunks. -/
theorem onFiles_fillCopy (options : FillOptions)
    (filled : onFiles (fillTexts detector values copy) files = (.ok (), next)) :
    onFiles (fillCopy options detector values copy) files =
      onFiles (do
        let chunks ← fillChunks options.chunkIdStem (values.marked options.htmlMark) copy
        let content ← use (FileAccess.read copy)
        return ⟨content, values.size, chunks⟩) next := by
  rw [onFiles] at filled
  rw [onFiles, fillCopy, ExceptT.run_bind, StateT.run_bind, filled]
  rfl

/-- Filling in the texts of a working copy gives what substituting the values in the main part
one after the other gives, the same error or the same document. -/
theorem fillTexts_eq_substituteAll {root : Node} (readable : files.read copy = .ok content)
    (unpacked : Package.ofBytes content = .ok package) (isMain : package.mainPart = .ok main)
    (detected : detector.answer 1 package = .ok revised) (holds : package.document main = .ok root)
    (declared : DeclaredAtRoot root) (declares : DeclaresWord root.attrs)
    (free : root.PlaceholderFree) (lone : LoneTexts root) (settled : Settled root)
    (values : Values) :
    (∀ error, (onFiles (fillTexts detector values copy) files).1 = .error error ↔
      Bookmark.substituteAll root revised values.entries = .error error) ∧
    ∀ filled, Bookmark.substituteAll root revised values.entries = .ok filled →
      ∃ saved next, onFiles (fillTexts detector values copy) files = (.ok (), next) ∧
        files.write copy saved.toBytes = .ok next ∧ next.read copy = .ok saved.toBytes ∧
        package.KeepsOthers main saved ∧
        saved.get? main = (if values.entries = [] then package.get? main else some filled.toBytes) ∧
        ∀ options : FillOptions,
          onFiles (fillCopy options detector values copy) files =
            onFiles (do
              let chunks ← fillChunks options.chunkIdStem
                ⟨(values.entries.map (·.2)).filter fun value =>
                  options.htmlMark.toList <+: value.toList⟩ copy
              let content ← use (FileAccess.read copy)
              return ⟨content, values.entries.length, chunks⟩) next := by
  have storable : Storable root :=
    .of_built (Package.built_of_document holds) declared declares free lone settled
  rcases Package.exists_find?_of_document holds with ⟨place, found⟩
  have texts := onFiles_fillTexts readable unpacked isMain detected values
  rw [Package.fillBookmarks_eq holds storable] at texts
  cases substituted : Bookmark.substituteAll root revised values.entries with
  | error error =>
      rw [substituted, Except.map] at texts
      refine ⟨fun other => ?_, nofun⟩
      rw [texts, Except.error.injEq, Except.error.injEq]
  | ok filled =>
      rw [substituted, Except.map] at texts
      simp only at texts
      rcases Files.exists_write readable (if values.entries = [] then package
        else package.setDocument main filled).toBytes with ⟨next, written, read⟩
      rw [onFiles_savePackage written] at texts
      constructor
      · intro error
        rw [texts]
        exact iff_of_false nofun nofun
      · rintro _ ⟨⟩
        refine ⟨_, next, texts, written, read, ?_, ?_, ?_⟩
        · split
          · exact ⟨rfl, fun _ _ => rfl⟩
          · exact Package.keepsOthers_set found filled.toBytes
        · split
          · rfl
          · exact Package.get?_set found filled.toBytes
        · intro options
          rw [onFiles_fillCopy options texts, marked_eq]
          rfl

end Run

/-! ## Packages that have a main part only -/

/-- A package that has a main part only. -/
def lonePackage (content : Bytes) : Package := ⟨[⟨Package.usualMainPart, content⟩]⟩

section Lone

variable {content : Bytes}

/-- Where a part is does not depend on what is in the main part. -/
theorem find?_lonePackage_congr (content : Bytes) (name : String) :
    (lonePackage content).find? name = (lonePackage []).find? name :=
  Package.find?_congr rfl name

theorem find?_lonePackage (content : Bytes) :
    (lonePackage content).find? Package.usualMainPart = some 0 := by
  rw [find?_lonePackage_congr]
  decide +kernel

theorem mainPart_lonePackage (content : Bytes) :
    (lonePackage content).mainPart = .ok Package.usualMainPart := by
  have unrelated : (lonePackage content).has (PartName.relationshipsOf "") = false := by
    rw [Package.has, find?_lonePackage_congr]
    decide +kernel
  have there : (lonePackage content).has Package.usualMainPart = true := by
    rw [Package.has, find?_lonePackage]
    rfl
  rw [Package.mainPart, Package.relationships, unrelated]
  simp only [Bool.false_eq_true, if_false, there, if_true, bind, Except.bind, List.find?_nil,
    Option.bind_none, Option.filter_none]
  rfl

theorem setDocument_lonePackage (content : Bytes) (root : Node) :
    (lonePackage content).setDocument Package.usualMainPart root = lonePackage root.toBytes := by
  rw [Package.setDocument, Package.set, find?_lonePackage]
  rfl

theorem document_lonePackage {text : List Char} {root : Node} (front : text.head? = some '<')
    (read : Markup.readText text = .ok root) :
    (lonePackage (Utf8.encode text)).document Package.usualMainPart = .ok root := by
  rcases List.head?_eq_some_iff.1 front with ⟨rest, rfl⟩
  have content : (lonePackage (Utf8.encode ('<' :: rest))).get? Package.usualMainPart =
      some (Utf8.encode ('<' :: rest)) := by
    rw [Package.get?, find?_lonePackage]
    rfl
  rw [Package.document, content]
  simp only [Markup.readBytes_encode, read]
  rfl

theorem ofBytes_lonePackage (small : content.length < 2 ^ 31) :
    Package.ofBytes (lonePackage content).toBytes = .ok (lonePackage content) := by
  have name : (Utf8.encode Package.usualMainPart.toList).length = 17 := by decide +kernel
  apply Package.ofBytes_toBytes
  constructor
  case distinct => exact List.nodup_singleton _
  case files =>
    simp only [lonePackage, List.map_cons, List.map_nil, List.forall_mem_singleton]
    decide +kernel
  case names =>
    simp only [lonePackage, List.map_cons, List.map_nil, List.forall_mem_singleton, name]
    decide
  case count => exact (by decide : 1 < 0xFFFF)
  case size =>
    have mark : Archive.longMark = 2 ^ 32 - 1 := rfl
    simp [lonePackage, Archive.writeEntry, name]
    omega

/-- A working copy, and no other file. -/
def copyOf (bytes : Bytes) : Files := ⟨[], [], [(["copy"], bytes)]⟩

theorem read_copyOf (bytes : Bytes) : (copyOf bytes).read "copy" = .ok bytes := rfl

theorem write_copyOf (bytes changed : Bytes) :
    (copyOf bytes).write "copy" changed = .ok (copyOf changed) := rfl

end Lone

def twoValues : Values := ⟨[("a", "x"), ("b", "y")]⟩

/-- Filling in two values in a working copy that has a main part only. -/
def fillLone (content : Bytes) : Except Error Unit × Files :=
  onFiles (fillTexts (.prepared [false]) twoValues "copy") (copyOf (lonePackage content).toBytes)

/-! ## A bookmark in a bookmark -/

/-- A word of word-processing markup with its usual qualifier. -/
def wordName (localName : String) : QName := ⟨some Namespace.word, some "w", localName⟩

def declarationOf (qualifier uri : String) : Attr :=
  ⟨⟨some Namespace.declarations, some "xmlns", qualifier⟩, uri⟩

section Words

variable (name key : String → QName)

def startOf (id bookmark : String) : Node :=
  .element (name "bookmarkStart") [⟨key "id", id⟩, ⟨key "name", bookmark⟩] []

def stopOf (id : String) : Node := .element (name "bookmarkEnd") [⟨key "id", id⟩] []

def runOf (text : String) : Node := .element (name "r") [] [.element (name "t") [] [.text text]]

/-- A bookmark with another in it, and what is behind both. -/
def nestedIn (attrs : List Attr) (left middle last : List Node) : Node :=
  .element (name "p") attrs (startOf name key "2" "b" :: left ++ startOf name key "1" "a" ::
    middle ++ stopOf name key "1" :: stopOf name key "2" :: last)

end Words

def nested (left middle last : List Node) : Node :=
  nestedIn wordName wordName [declarationOf "w" Namespace.word] left middle last

theorem length_nested : (Utf8.encode (nested [] [] []).write).length < 2 ^ 31 := by
  decide +kernel

theorem readable_nested : Readable [] (nested [] [] []) := by
  apply readable_of_labels
  · decide
  · exact LoneTexts.textsAlone (by decide) (by decide)

/-- The text of the outer bookmark takes the place of that of the inner one. -/
theorem fillTexts_nested :
    ∃ (saved : Package) (next : Files),
      fillLone (Utf8.encode (nested [] [] []).write) = (.ok (), next) ∧
      next.read "copy" = .ok saved.toBytes ∧
      saved.get? Package.usualMainPart = some (nested [runOf wordName "y"] [] []).toBytes := by
  have detected : (Detector.prepared [false]).answer 1
      (lonePackage (Utf8.encode (nested [] [] []).write)) = .ok false := rfl
  have holds : (lonePackage (Utf8.encode (nested [] [] []).write)).document
      Package.usualMainPart = .ok (nested [] [] []) :=
    document_lonePackage rfl (readable_nested.readText_write rfl)
  have substituted : Bookmark.substituteAll (nested [] [] []) false twoValues.entries =
      .ok (nested [runOf wordName "y"] [] []) := rfl
  have filled := fillTexts_eq_substituteAll (read_copyOf _) (ofBytes_lonePackage length_nested)
    (mainPart_lonePackage _) detected holds ⟨by decide, by decide⟩ ⟨⟨"w", by decide⟩, by decide⟩
    (by decide) (by decide) ⟨by decide, by decide, by decide, by decide⟩ twoValues
  rcases filled.2 _ substituted with ⟨saved, next, texts, _, read, _, stored, _⟩
  exact ⟨saved, next, texts, read, stored⟩

/-! ## Documents that storing changes -/

/-- A main part whose declarations are at the root and whose texts stand alone, but of which
filling in the values leaves no package with the document that substituting them gives. -/
structure Altered (content : Bytes) (root filled : Node) : Prop where
  unpacked : Package.ofBytes (lonePackage content).toBytes = .ok (lonePackage content)
  holds : (lonePackage content).document Package.usualMainPart = .ok root
  declared : DeclaredAtRoot root
  declares : DeclaresWord root.attrs
  free : root.PlaceholderFree
  lone : LoneTexts root
  substituted : Bookmark.substituteAll root false twoValues.entries = .ok filled
  differs : ∀ next bytes saved, fillLone content = (.ok (), next) →
    next.read "copy" = .ok bytes → Package.ofBytes bytes = .ok saved →
    saved.get? Package.usualMainPart ≠ some filled.toBytes

section Altered

variable {text : List Char} {root one three filled : Node} {outcome : Except Error Node}

/-- The second value is put into what reading gives after the first. -/
theorem fillLone_eq
    (unpacked : Package.ofBytes (lonePackage (Utf8.encode text)).toBytes =
      .ok (lonePackage (Utf8.encode text)))
    (holds : (lonePackage (Utf8.encode text)).document Package.usualMainPart = .ok root)
    (first : Bookmark.substitute root false "a" "x" = .ok one)
    (second : ((Markup.readText one.toDocument).mapError .markup >>= fun two =>
      Bookmark.substitute two false "b" "y") = outcome) :
    fillLone (Utf8.encode text) =
      match outcome with
      | .ok three => (.ok (), copyOf (lonePackage three.toBytes).toBytes)
      | .error error => (.error error, copyOf (lonePackage (Utf8.encode text)).toBytes) := by
  have found := find?_lonePackage (Utf8.encode text)
  have detected : (Detector.prepared [false]).answer 1 (lonePackage (Utf8.encode text)) =
      .ok false := rfl
  have filled : (lonePackage (Utf8.encode text)).fillBookmarks Package.usualMainPart false
      twoValues.entries = outcome.map fun three => lonePackage three.toBytes := by
    rw [twoValues, Package.fillBookmarks_cons holds first, Package.fillBookmarks,
      Package.document_setDocument found, ← second]
    simp only [Package.fillBookmarks, setDocument_lonePackage]
    cases (Markup.readText one.toDocument).mapError Error.markup with
    | error error => rfl
    | ok two => cases Bookmark.substitute two false "b" "y" <;> rfl
  rw [fillLone, onFiles_fillTexts (read_copyOf _) unpacked (mainPart_lonePackage _) detected,
    filled]
  cases outcome with
  | error error => rfl
  | ok three => exact onFiles_savePackage (write_copyOf _ _)

/-- Where what the second substitution gives is not written as the document is. -/
theorem altered_of_outcome (one : Node) (outcome : Except Error Node)
    (front : text.head? = some '<') (small : (Utf8.encode text).length < 2 ^ 31)
    (read : Markup.readText text = .ok root)
    (declared : DeclaredAtRoot root) (declares : DeclaresWord root.attrs)
    (free : root.PlaceholderFree) (lone : LoneTexts root)
    (substituted : Bookmark.substituteAll root false twoValues.entries = .ok filled)
    (first : Bookmark.substitute root false "a" "x" = .ok one)
    (second : ((Markup.readText one.toDocument).mapError .markup >>= fun two =>
      Bookmark.substitute two false "b" "y") = outcome)
    (apart : ∀ three, outcome = .ok three →
      three.toBytes.length < 2 ^ 31 ∧ three.write ≠ filled.write) :
    Altered (Utf8.encode text) root filled where
  unpacked := ofBytes_lonePackage small
  holds := document_lonePackage front read
  declared := declared
  declares := declares
  free := free
  lone := lone
  substituted := substituted
  differs := by
    have pass := fillLone_eq (ofBytes_lonePackage small) (document_lonePackage front read) first
      second
    intro next bytes saved same stored restored found
    cases outcome with
    | error error =>
        rw [pass] at same
        cases same
    | ok three =>
        rcases apart three rfl with ⟨small, apart⟩
        rw [pass] at same
        cases same
        rw [read_copyOf] at stored
        cases stored
        rw [ofBytes_lonePackage small] at restored
        cases restored
        rw [Package.get?, find?_lonePackage] at found
        exact apart (Markup.toBytes_inj.1 (Option.some.inj found))

end Altered

/-! ### An empty text -/

def hollow (content : List Node) : Node := .element (wordName "t") [] content

/-- The text of a paragraph with an empty text behind two bookmarks. -/
def hollowText : List Char :=
  '<' :: ("w:p xmlns:w=\"".toList ++ Namespace.word.toList ++ "\">".toList ++
    "<w:bookmarkStart w:id=\"2\" w:name=\"b\"/>".toList ++
    "<w:bookmarkStart w:id=\"1\" w:name=\"a\"/>".toList ++
    "<w:bookmarkEnd w:id=\"1\"/><w:bookmarkEnd w:id=\"2\"/>".toList ++
    "<w:t><![CDATA[]]></w:t></w:p>".toList)

theorem write_hollow_ne :
    (nested [runOf wordName "y"] [] [hollow []]).write ≠
      (nested [runOf wordName "y"] [] [hollow [.text ""]]).write := by
  simp only [nested, nestedIn, hollow, write, writeAll, List.append_assoc, List.cons_append,
    List.nil_append, List.append_cancel_left_eq, ne_eq, List.cons.injEq, true_and]
  intro same
  exact absurd same.1 (by decide)

/-- An empty text is lost. -/
theorem altered_hollow : Altered (Utf8.encode hollowText) (nested [] [] [hollow [.text ""]])
    (nested [runOf wordName "y"] [] [hollow [.text ""]]) := by
  have read : Markup.readText hollowText = .ok (nested [] [] [hollow [.text ""]]) :=
    Markup.readText_of_outline (by decide +kernel)
  have reread : Markup.readText (nested [] [runOf wordName "x"] [hollow [.text ""]]).toDocument =
      .ok (nested [] [runOf wordName "x"] [hollow []]) :=
    Markup.readText_of_outline (by decide +kernel)
  refine altered_of_outcome (nested [] [runOf wordName "x"] [hollow [.text ""]])
    (.ok (nested [runOf wordName "y"] [] [hollow []])) rfl (by decide +kernel) read
    ⟨by decide, by decide⟩ ⟨⟨"w", by decide⟩, by decide⟩ (by decide) (by decide) rfl rfl ?_ ?_
  · rw [reread]
    rfl
  · rintro _ ⟨⟩
    exact ⟨by decide +kernel, write_hollow_ne⟩

/-! ### An attribute that looks like a declaration -/

def posing : List Attr :=
  [declarationOf "z" Namespace.declarations,
    ⟨⟨some Namespace.declarations, some "z", "u"⟩, Namespace.word⟩,
    declarationOf "w" Namespace.word]

/-- A word with the qualifier that is not declared, as it is made and as it is read. -/
def undeclared (ns : Option String) (localName : String) : QName := ⟨ns, some "u", localName⟩

def posed (left middle : List Node) : Node := nestedIn wordName wordName posing left middle []

theorem write_posed_ne :
    (posed [runOf (undeclared (some Namespace.word)) "y"] [runOf (undeclared none) "x"]).write ≠
      (posed [runOf (undeclared (some Namespace.word)) "y"] []).write := by
  simp only [posed, nestedIn, runOf, stopOf, write, writeAll, List.append_assoc, List.cons_append,
    List.nil_append, List.append_cancel_left_eq, ne_eq, List.cons.injEq, true_and]
  exact fun same => absurd (congrArg List.head? same) (by decide)

/-- A new element gets the qualifier of an attribute that looks like a declaration. -/
theorem altered_posed : Altered (Utf8.encode (posed [] []).write) (posed [] [])
    (posed [runOf (undeclared (some Namespace.word)) "y"] []) := by
  have readable : Readable [] (posed [] []) :=
    readable_of_labels (by decide) (LoneTexts.textsAlone (by decide) (by decide))
  have readable' : Readable [] (posed [] [runOf (undeclared none) "x"]) :=
    readable_of_labels (by decide) (LoneTexts.textsAlone (by decide) (by decide))
  have reread : Markup.readText
      (posed [] [runOf (undeclared (some Namespace.word)) "x"]).toDocument =
      .ok (posed [] [runOf (undeclared none) "x"]) := readable'.readText_toDocument rfl
  refine altered_of_outcome (posed [] [runOf (undeclared (some Namespace.word)) "x"])
    (.ok (posed [runOf (undeclared (some Namespace.word)) "y"] [runOf (undeclared none) "x"]))
    rfl (by decide +kernel) (readable.readText_write rfl) ⟨by decide, by decide⟩
    ⟨⟨"w", by decide⟩, by decide⟩ (by decide) (by decide) rfl rfl ?_ ?_
  · rw [reread]
    rfl
  · rintro _ ⟨⟩
    exact ⟨by decide +kernel, write_posed_ne⟩

/-! ### Attributes whose keys start with a colon -/

/-- A name without qualifier. -/
def bareName (ns : Option String) (localName : String) : QName := ⟨ns, none, localName⟩

/-- A name that is written with a colon in front. -/
def colonName (localName : String) : QName := ⟨none, some "", localName⟩

def defaulted (key : String → QName) (left middle : List Node) : Node :=
  nestedIn (bareName (some Namespace.word)) key
    [⟨bareName (some Namespace.declarations) "xmlns", Namespace.word⟩] left middle []

/-- A run in the default namespace. -/
def bareRun (text : String) : Node := runOf (bareName (some Namespace.word)) text

/-- A key that starts with a colon is in the default namespace, and is written without the
colon. -/
theorem altered_defaulted : Altered (Utf8.encode (defaulted colonName [] []).write)
    (defaulted (bareName (some Namespace.word)) [] [])
    (defaulted (bareName (some Namespace.word)) [bareRun "y"] []) := by
  have read : Markup.readText (defaulted colonName [] []).write =
      .ok (defaulted (bareName (some Namespace.word)) [] []) :=
    Markup.readText_of_outline (by decide +kernel)
  have readable : Readable [] (defaulted (bareName none) [] [bareRun "x"]) :=
    readable_of_labels (by decide) (LoneTexts.textsAlone (by decide) (by decide))
  have reread : Markup.readText
      (defaulted (bareName (some Namespace.word)) [] [bareRun "x"]).toDocument =
      .ok (defaulted (bareName none) [] [bareRun "x"]) := readable.readText_toDocument rfl
  refine altered_of_outcome (defaulted (bareName (some Namespace.word)) [] [bareRun "x"])
    (.error (.markerNotFound "b")) rfl (by decide +kernel) read ⟨by decide, by decide⟩
    ⟨⟨"", by decide⟩, by decide⟩ (by decide) (by decide) rfl rfl ?_ nofun
  rw [reread]
  rfl

def doubled (key : String → QName) (left middle : List Node) : Node :=
  nestedIn wordName wordName [declarationOf "w" Namespace.word, ⟨bareName none "u", "1"⟩,
    ⟨key "u", "2"⟩] left middle []

/-- Without the colon there are two attributes of one name. -/
theorem altered_doubled : Altered (Utf8.encode (doubled colonName [] []).write)
    (doubled (bareName none) [] []) (doubled (bareName none) [runOf wordName "y"] []) := by
  have read : Markup.readText (doubled colonName [] []).write =
      .ok (doubled (bareName none) [] []) := Markup.readText_of_outline (by decide +kernel)
  have reread : Markup.readText (doubled (bareName none) [] [runOf wordName "x"]).toDocument =
      .error (.malformed (.attribute (.duplicated 81 75))) :=
    Markup.readText_of_outline (by decide +kernel)
  refine altered_of_outcome (doubled (bareName none) [] [runOf wordName "x"])
    (.error (.markup (.malformed (.attribute (.duplicated 81 75))))) rfl (by decide +kernel) read
    ⟨by decide, by decide⟩ ⟨⟨"w", by decide⟩, by decide⟩ (by decide) (by decide) rfl rfl ?_ nofun
  rw [reread]
  rfl

/-- Storing and reading between the values changes a document with an empty text, with an
attribute that looks like a declaration, with an attribute that is in the default namespace,
and with two attributes of one name. -/
theorem altered_documents :
    Altered (Utf8.encode hollowText) (nested [] [] [hollow [.text ""]])
      (nested [runOf wordName "y"] [] [hollow [.text ""]]) ∧
    Altered (Utf8.encode (posed [] []).write) (posed [] [])
      (posed [runOf (undeclared (some Namespace.word)) "y"] []) ∧
    Altered (Utf8.encode (defaulted colonName [] []).write)
      (defaulted (bareName (some Namespace.word)) [] [])
      (defaulted (bareName (some Namespace.word)) [bareRun "y"] []) ∧
    Altered (Utf8.encode (doubled colonName [] []).write) (doubled (bareName none) [] [])
      (doubled (bareName none) [runOf wordName "y"] []) :=
  ⟨altered_hollow, altered_posed, altered_defaulted, altered_doubled⟩

end TemplateFill.Fill
