import TemplateFill.CommandLine.Run
import TemplateFill.Proofs.Fill.Remaining
import TemplateFill.Proofs.Fill.WorkingCopy

/-!
# The inputs of a fill

A command line that fills a template is given the template, the data and a place for the output,
and works at a further place, which the user may choose.  The working copy is never made in the
place of the template.  Nothing keeps it out of the place of the data, though, and data in that
place is gone after the run.
-/

namespace TemplateFill.CommandLine

open Files Fill TemplateFill.Text

/-! ## One run -/

/-- The report of a command line that is run on files in memory, and the files afterwards. -/
def runOn (arguments : List String) (files : Files) : Report × Files :=
  (run arguments : StateM Files Report).run files

/-- The text that a path leads to. -/
def textIn (files : Files) (path : String) : Except FileFault String :=
  match files.read path with
  | .error fault => .error fault
  | .ok content =>
      match Utf8.decode content with
      | .ok text => .ok (String.ofList text)
      | .error _ => .error .notText

/-- Where the working copy for a request is. -/
def FillRequest.copy (request : FillRequest) : String :=
  request.temp.getD (usualCopy request.output)

/-- The settings that a request asks for. -/
def FillRequest.options (request : FillRequest) : FillOptions :=
  match request.htmlMark with
  | some mark => { htmlMark := mark }
  | none => {}

/-- The filling that a request asks for when its data is a text. -/
def FillRequest.fill (request : FillRequest) (text : String) :
    ExceptT Error (StateM Files) FillOutcome :=
  Fill.fill request.options .markup request.template text request.copy

theorem run_readText (path : String) (files : Files) :
    (readText path : StateM Files (Except FileFault String)).run files =
      (textIn files path, files) := by
  have opened : (FileAccess.read path : StateM Files (Except FileFault Bytes)).run files =
      (files.read path, files) := rfl
  rw [readText, StateT.run_bind, opened, textIn]
  cases files.read path with
  | error fault => rfl
  | ok content =>
      simp only [bind]
      cases Utf8.decode content <;> rfl

/-- An error about a file is worded, and nothing else changes. -/
theorem run_about {α : Type} (path : String) (action : StateM Files (Except FileFault α))
    (files : Files) :
    (about path action).run.run files =
      ((action.run files).1.mapError fun fault => path ++ ": " ++ fault.message,
        (action.run files).2) :=
  rfl

theorem run_worded {α : Type} (action : ExceptT Error (StateM Files) α) (files : Files) :
    (worded action).run.run files =
      ((onFiles action files).1.mapError Error.message, (onFiles action files).2) :=
  rfl

theorem run_write (path : String) (content : Bytes) (files : Files) :
    (FileAccess.write path content : StateM Files (Except FileFault Unit)).run files =
      match files.write path content with
      | .ok next => (.ok (), next)
      | .error fault => (.error fault, files) :=
  rfl

/-- A run that fills a template reads the data, fills the template, and writes the output. -/
theorem runOn_fill {arguments : List String} {request : FillRequest}
    (asked : read arguments = .ok (.fill request)) (files : Files) :
    runOn arguments files =
      match textIn files request.data with
      | .error fault => (.failure (request.data ++ ": " ++ fault.message), files)
      | .ok text =>
          match onFiles (request.fill text) files with
          | (.error error, filled) => (.failure error.message, filled)
          | (.ok outcome, filled) =>
              match filled.write request.output outcome.content with
              | .ok next => (.success (fillAnswer request outcome), next)
              | .error fault =>
                  (.failure (request.output ++ ": " ++ fault.message), filled) := by
  have reported : runOn arguments files =
      match (runFill request : ExceptT String (StateM Files) String).run.run files with
      | (.ok output, after) => (.success output, after)
      | (.error message, after) => (.failure message, after) := by
    rw [runOn, run, asked]
    show (((runFill request : ExceptT String (StateM Files) String).run >>= _).run files) = _
    rw [StateT.run_bind]
    rcases (runFill request : ExceptT String (StateM Files) String).run.run files with
      ⟨error | output, after⟩ <;> rfl
  rw [reported, runFill, run_bind, run_about, run_readText]
  cases textIn files request.data with
  | error fault => rfl
  | ok text =>
      show (match (worded (request.fill text) >>= fun outcome => do
          about request.output (FileAccess.write request.output outcome.content)
          return fillAnswer request outcome).run.run files with
        | (.ok output, after) => (Report.success output, after)
        | (.error message, after) => (Report.failure message, after)) = _
      simp only [run_bind, run_worded]
      rcases onFiles (request.fill text) files with ⟨error | outcome, filled⟩
      · rfl
      · simp only [Except.mapError, run_about, run_write]
        cases filled.write request.output outcome.content <;> rfl

/-! ## What becomes of the inputs -/

/-- The run gets as far as making a working copy, and makes it where the data is. -/
def FillRequest.ReplacesData (request : FillRequest) (files : Files) : Prop :=
  ∃ text, textIn files request.data = .ok text ∧
    MakesCopy .markup request.template text request.copy files ∧
    files.target? request.copy = files.target? request.data

/-- The output leads to none of the places that the inputs lead to. -/
def FillRequest.OutputApart (request : FillRequest) (files : Files) : Prop :=
  ∀ place, files.target? request.output = some place →
    files.target? request.template ≠ some place ∧ files.target? request.data ≠ some place

theorem exists_read_of_textIn {files : Files} {path text : String}
    (holds : textIn files path = .ok text) : ∃ content, files.read path = .ok content := by
  rw [textIn] at holds
  cases readable : files.read path with
  | error fault =>
      rw [readable] at holds
      cases holds
  | ok content => exact ⟨content, rfl⟩

/-- A path that leads elsewhere than the output and the copy is read as before. -/
private theorem read_of_keeps {files filled after : Files} {copy output path : String}
    {content : Bytes} (keeps : KeepsAllBut copy files filled)
    (written : KeepsAllBut output filled after) (readable : files.read path = .ok content)
    (fromCopy : files.target? copy ≠ files.target? path)
    (fromOutput : ∀ place, files.target? output = some place → files.target? path ≠ some place) :
    after.read path = files.read path := by
  have there := keeps.read_eq_ok fromCopy readable
  rw [readable]
  refine written.read_eq_ok ?_ there
  rcases read_eq_ok_iff.1 readable with ⟨place, leads, -⟩
  rw [keeps.target?_eq, keeps.target?_eq, leads]
  exact fun same => fromOutput place same leads

section Inputs

variable {arguments : List String} {request : FillRequest} {files : Files}
  (asked : read arguments = .ok (.fill request))

include asked

/-- After filling, no file but the output is written. -/
private theorem keepsAllBut_output {text : String} (holds : textIn files request.data = .ok text)
    {result : Except Error FillOutcome} {filled : Files}
    (ran : onFiles (request.fill text) files = (result, filled)) :
    KeepsAllBut request.output filled (runOn arguments files).2 := by
  rw [runOn_fill asked, holds]
  simp only [ran]
  cases result with
  | error error => exact .refl _ filled
  | ok outcome =>
      simp only
      cases written : filled.write request.output outcome.content with
      | error fault => exact .refl _ filled
      | ok next => exact keepsAllBut_write written

/-- A run that makes no working copy changes no file. -/
private theorem runOn_of_noCopy
    (noCopy : ∀ text, textIn files request.data = .ok text →
      ¬ MakesCopy .markup request.template text request.copy files) :
    (runOn arguments files).2 = files := by
  rw [runOn_fill asked]
  cases holds : textIn files request.data with
  | error fault => rfl
  | ok text =>
      rcases fill_cases request.options .markup request.template text request.copy files with
        ⟨-, error, refused⟩ | ⟨made, -⟩
      · rw [← FillRequest.fill] at refused
        simp only [refused]
      · exact absurd made (noCopy text holds)

/-- A run that makes a working copy removes it, and writes nothing but the output. -/
private theorem runOn_of_copy {text : String} (holds : textIn files request.data = .ok text)
    (made : MakesCopy .markup request.template text request.copy files) :
    ∃ filled content location, files.read request.template = .ok content ∧
      files.target? request.copy = some location ∧
      files.target? request.template ≠ some location ∧
      KeepsAllBut request.copy files filled ∧ filled.content? location = none ∧
      KeepsAllBut request.output filled (runOn arguments files).2 := by
  rcases fill_cases request.options .markup request.template text request.copy files with
    ⟨notMade, -⟩ | ⟨-, result, filled, content, location, ran, readable, leads, apart, keeps,
      removed⟩
  · exact absurd made notMade
  · exact ⟨filled, content, location, readable, leads, apart, keeps, removed,
      keepsAllBut_output asked holds ran⟩

variable (apart : request.OutputApart files)

include apart

theorem read_template_of_fill :
    (runOn arguments files).2.read request.template = files.read request.template := by
  by_cases copied : ∃ text, textIn files request.data = .ok text ∧
      MakesCopy .markup request.template text request.copy files
  · rcases copied with ⟨text, holds, made⟩
    rcases runOn_of_copy asked holds made with
      ⟨filled, content, location, readable, leads, elsewhere, keeps, -, written⟩
    refine read_of_keeps keeps written readable ?_ fun place same => (apart place same).1
    rw [leads]
    exact elsewhere.symm
  · rw [runOn_of_noCopy asked fun text holds made => copied ⟨text, holds, made⟩]

/-- Data that the working copy does not take the place of stays. -/
theorem read_data_of_fill (spared : ¬ request.ReplacesData files) :
    (runOn arguments files).2.read request.data = files.read request.data := by
  by_cases copied : ∃ text, textIn files request.data = .ok text ∧
      MakesCopy .markup request.template text request.copy files
  · rcases copied with ⟨text, holds, made⟩
    rcases runOn_of_copy asked holds made with ⟨filled, -, -, -, -, -, keeps, -, written⟩
    rcases exists_read_of_textIn holds with ⟨content, readable⟩
    exact read_of_keeps keeps written readable (fun same => spared ⟨text, holds, made, same⟩)
      fun place same => (apart place same).2
  · rw [runOn_of_noCopy asked fun text holds made => copied ⟨text, holds, made⟩]

/-- Data that the working copy takes the place of is removed with it. -/
theorem read_data_of_replaced (replaced : request.ReplacesData files) :
    (runOn arguments files).2.read request.data = .error .notFound := by
  rcases replaced with ⟨text, holds, made, same⟩
  rcases runOn_of_copy asked holds made with
    ⟨filled, -, location, -, leads, -, keeps, removed, written⟩
  rw [leads] at same
  have leadsAfter : (runOn arguments files).2.target? request.data = some location := by
    rw [written.target?_eq, keeps.target?_eq, ← same]
  have aside : filled.target? request.output ≠ some location := by
    rw [keeps.target?_eq]
    exact fun there => (apart location there).2 same.symm
  rw [read_of_target? leadsAfter, written.content location aside, removed]

/-- A run leaves its template alone, and its data too unless the working copy was made in its
place; then the data is gone. -/
theorem read_inputs_of_fill :
    (runOn arguments files).2.read request.template = files.read request.template ∧
      (¬ request.ReplacesData files →
        (runOn arguments files).2.read request.data = files.read request.data) ∧
      (request.ReplacesData files →
        (runOn arguments files).2.read request.data = .error .notFound) :=
  ⟨read_template_of_fill asked apart, read_data_of_fill asked apart,
    read_data_of_replaced asked apart⟩

end Inputs

/-! ## Data that is lost -/

/-- A template in the file `t.docx`, and data for it in a file of the given name. -/
def inputsWith (name : String) : Files :=
  ⟨[], [], [(["t.docx"], (lonePackage (Utf8.encode (nested [] [] []).write)).toBytes),
    ([name], Utf8.encode twoData.toList)]⟩

/-- There are no folders that a path could lead through. -/
theorem target?_inputsWith (name path : String) :
    (inputsWith name).target? path = (⟨[], [], []⟩ : Files).target? path := by
  apply target?_congr <;> rfl

/-- Names without a step lead to the files with these names. -/
theorem target?_names :
    (⟨[], [], []⟩ : Files).target? "t.docx" = some ["t.docx"] ∧
      (⟨[], [], []⟩ : Files).target? "d.xml" = some ["d.xml"] ∧
      (⟨[], [], []⟩ : Files).target? "o.docx" = some ["o.docx"] ∧
      (⟨[], [], []⟩ : Files).target? "o.docx.work" = some ["o.docx.work"] := by
  decide +kernel

theorem read_template_inputsWith (name : String) : (inputsWith name).read "t.docx" =
    .ok (lonePackage (Utf8.encode (nested [] [] []).write)).toBytes :=
  rfl

theorem read_data_inputsWith {name path : String} (other : name ≠ "t.docx")
    (leads : (⟨[], [], []⟩ : Files).target? path = some [name]) :
    (inputsWith name).read path = .ok (Utf8.encode twoData.toList) := by
  have leads' : (inputsWith name).target? path = some [name] := by
    rw [target?_inputsWith, leads]
  have found : (inputsWith name).content? [name] = some (Utf8.encode twoData.toList) := by
    have unequal : (name == "t.docx") = false := beq_false_of_ne other
    simp [inputsWith, content?, List.lookup_cons, unequal]
  rw [read_of_target? leads', found]

theorem hasValues_inputsWith (name : String) :
    HasValues .markup "t.docx" twoData (inputsWith name) twoValues := by
  have holds : (lonePackage (Utf8.encode (nested [] [] []).write)).document
      Package.usualMainPart = .ok (nested [] [] []) :=
    document_lonePackage rfl (readable_nested.readText_write rfl)
  exact ⟨_, _, _, read_template_inputsWith name, ofBytes_lonePackage length_nested,
    templateBookmarks_lonePackage holds rfl (List.cons_ne_nil _ _),
    read_twoData (by decide) (by decide)⟩

/-- Where the path of the copy leads to the data, the copy is made there. -/
theorem replacesData_inputsWith {request : FillRequest} {name : String}
    (template : request.template = "t.docx") (apart : Location.path [name] ≠ "/t.docx")
    (leadsCopy : (⟨[], [], []⟩ : Files).target? request.copy = some [name])
    (leadsData : (⟨[], [], []⟩ : Files).target? request.data = some [name]) :
    request.ReplacesData (inputsWith name) := by
  have other : name ≠ "t.docx" := by
    rintro rfl
    exact apart (by decide)
  have leadsTemplate : (inputsWith name).target? "t.docx" = some ["t.docx"] := by
    rw [target?_inputsWith, target?_names.1]
  refine ⟨twoData, ?_, ?_, ?_⟩
  · rw [textIn, read_data_inputsWith other leadsData]
    simp only [Utf8.decode_encode, String.ofList_toList]
  · rw [template]
    refine makesCopy_iff.2 ⟨⟨twoValues, hasValues_inputsWith name⟩, _, [name], leadsTemplate, ?_,
      fun _ => apart⟩
    rw [target?_inputsWith, leadsCopy]
  · rw [target?_inputsWith, target?_inputsWith, leadsCopy, leadsData]

/-- The user places the working copy where the data is. -/
def placed : FillRequest := ⟨"t.docx", "d.xml", "o.docx", some "d.xml", none, false⟩

/-- The data is where the working copy for the output usually is. -/
def besideOutput : FillRequest := ⟨"t.docx", "o.docx.work", "o.docx", none, none, false⟩

theorem read_placed :
    read ["fill", "t.docx", "d.xml", "-o", "o.docx", "--temp", "d.xml"] = .ok (.fill placed) := by
  decide +kernel

theorem read_besideOutput :
    read ["fill", "t.docx", "o.docx.work", "-o", "o.docx"] = .ok (.fill besideOutput) := by
  decide +kernel

theorem outputApart_inputsWith {request : FillRequest} (name : String) (place : Location)
    (output : (⟨[], [], []⟩ : Files).target? request.output = some place)
    (apart : (⟨[], [], []⟩ : Files).target? request.template ≠ some place ∧
      (⟨[], [], []⟩ : Files).target? request.data ≠ some place) :
    request.OutputApart (inputsWith name) := by
  intro other leads
  rw [target?_inputsWith, output] at leads
  cases leads
  rw [target?_inputsWith, target?_inputsWith]
  exact apart

theorem outputApart_placed : placed.OutputApart (inputsWith "d.xml") := by
  rcases target?_names with ⟨template, data, output, -⟩
  refine outputApart_inputsWith "d.xml" ["o.docx"] output ⟨?_, ?_⟩
  · simp [placed, template]
  · simp [placed, data]

theorem outputApart_besideOutput : besideOutput.OutputApart (inputsWith "o.docx.work") := by
  rcases target?_names with ⟨template, -, output, data⟩
  refine outputApart_inputsWith "o.docx.work" ["o.docx"] output ⟨?_, ?_⟩
  · simp [besideOutput, template]
  · simp [besideOutput, data]

theorem replacesData_placed : placed.ReplacesData (inputsWith "d.xml") :=
  replacesData_inputsWith rfl (by decide) target?_names.2.1 target?_names.2.1

theorem replacesData_besideOutput : besideOutput.ReplacesData (inputsWith "o.docx.work") :=
  replacesData_inputsWith rfl (by decide) target?_names.2.2.2 target?_names.2.2.2

/-- A run can remove its own data, whether the user placed the working copy or not. -/
theorem exists_data_lost :
    (∃ arguments request files, read arguments = .ok (.fill request) ∧
      request.temp = some request.data ∧ request.OutputApart files ∧
      (∃ content, files.read request.data = .ok content) ∧
      (runOn arguments files).2.read request.data = .error .notFound) ∧
    ∃ arguments request files, read arguments = .ok (.fill request) ∧
      request.temp = none ∧ request.OutputApart files ∧
      (∃ content, files.read request.data = .ok content) ∧
      (runOn arguments files).2.read request.data = .error .notFound := by
  constructor
  · exact ⟨_, placed, _, read_placed, rfl, outputApart_placed,
      exists_read_of_textIn replacesData_placed.choose_spec.1,
      read_data_of_replaced read_placed outputApart_placed replacesData_placed⟩
  · exact ⟨_, besideOutput, _, read_besideOutput, rfl, outputApart_besideOutput,
      exists_read_of_textIn replacesData_besideOutput.choose_spec.1,
      read_data_of_replaced read_besideOutput outputApart_besideOutput replacesData_besideOutput⟩

/-- The template is left alone where the data is not. -/
theorem read_inputs_of_fill_placed :
    read ["fill", "t.docx", "d.xml", "-o", "o.docx", "--temp", "d.xml"] = .ok (.fill placed) ∧
      placed.OutputApart (inputsWith "d.xml") ∧ placed.ReplacesData (inputsWith "d.xml") ∧
      (runOn ["fill", "t.docx", "d.xml", "-o", "o.docx", "--temp", "d.xml"]
        (inputsWith "d.xml")).2.read "t.docx" = (inputsWith "d.xml").read "t.docx" ∧
      (runOn ["fill", "t.docx", "d.xml", "-o", "o.docx", "--temp", "d.xml"]
        (inputsWith "d.xml")).2.read "d.xml" = .error .notFound := by
  have inputs := read_inputs_of_fill read_placed outputApart_placed
  exact ⟨read_placed, outputApart_placed, replacesData_placed, inputs.1,
    inputs.2.2 replacesData_placed⟩

end TemplateFill.CommandLine
