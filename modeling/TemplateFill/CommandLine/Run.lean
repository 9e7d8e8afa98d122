import TemplateFill.CommandLine.Arguments
import TemplateFill.CommandLine.Pretty
import TemplateFill.Fill

/-!
# Running a command line

Each command prints its answer, or an error and nothing else.  Progress is not reported, so
the option that asks for it changes nothing.
-/

namespace TemplateFill.CommandLine

open TemplateFill.Text

/-- What a run leaves behind, besides files. -/
structure Report where
  exitCode : Nat
  output : String
  errors : String
  deriving DecidableEq, Repr

/-- The report of a run that succeeds. -/
def Report.success (output : String) : Report := ⟨0, output, ""⟩

/-- The report of a run that fails. -/
def Report.failure (message : String) : Report := ⟨1, "", "error: " ++ message ++ "\n"⟩

/-- The steps of a path without those at its end that lead nowhere.  The first step
stays. -/
def mainSteps (path : List Char) : List (List Char) :=
  match pieces '/' path with
  | [] => []
  | first :: rest =>
      first :: (rest.reverse.dropWhile fun step => step == [] || step == ['.']).reverse

/-- A path with a name at its end. -/
def pathWith (path name : List Char) : List Char :=
  if path = [] then name
  else if path.getLast? = some '/' then path ++ name
  else path ++ '/' :: name

/-- The path of a folder from its steps; one empty step leads to the top. -/
def folderPath : List (List Char) → List Char
  | [[]] => ['/']
  | steps => joined '/' steps

/-- Where the working copy for an output is: next to it, with an addition to its name. -/
def usualCopy (output : String) : String :=
  let path := output.toList
  let steps := mainSteps path
  let addition := ".work".toList
  match steps.getLast? with
  | none => ".work"
  | some last =>
      if last = [] ∨ last = ['.'] ∨ last = ['.', '.'] then
        String.ofList (pathWith path addition)
      else
        let folder := folderPath (mainSteps (joined '/' steps.dropLast))
        String.ofList
          (pathWith (if steps.length = 1 then [] else folder) (last ++ addition))

/-- What the command `fill` prints. -/
def fillAnswer (request : FillRequest) (outcome : FillOutcome) : String :=
  if request.json then
    prettyObject [("output", quoted request.output),
      ("substituted", toString outcome.substituted), ("html_chunks", toString outcome.chunks),
      ("bytes", toString outcome.content.length)] ++ "\n"
  else
    "Wrote " ++ request.output ++ " (" ++ toString outcome.substituted ++ " bookmarks, " ++
      toString outcome.chunks ++ " HTML chunks)\n"

variable {m : Type → Type} [Monad m] [FileAccess m]

/-- Read the text in a file. -/
def readText (path : String) : m (Except FileFault String) := do
  match ← FileAccess.read path with
  | .error fault => return .error fault
  | .ok bytes =>
      match Utf8.decode bytes with
      | .ok text => return .ok (String.ofList text)
      | .error _ => return .error .notText

/-- Say in an error which file it is about. -/
def about {α : Type} (path : String) (action : m (Except FileFault α)) : ExceptT String m α :=
  ExceptT.mk do return (← action).mapError fun fault => path ++ ": " ++ fault.message

/-- Put an error into words. -/
def worded {α : Type} (action : ExceptT Error m α) : ExceptT String m α :=
  ExceptT.mk do return (← action.run).mapError Error.message

/-- Run the command `fill`. -/
def runFill (request : FillRequest) : ExceptT String m String := do
  let data ← about request.data (readText request.data)
  let copy := request.temp.getD (usualCopy request.output)
  let options : FillOptions :=
    match request.htmlMark with
    | some mark => { htmlMark := mark }
    | none => {}
  let outcome ← worded (Fill.fill options .markup request.template data copy)
  about request.output (FileAccess.write request.output outcome.content)
  return fillAnswer request outcome

/-- Run the command `list`. -/
def runList (template : String) (json : Bool) : ExceptT String m String := do
  let package ← worded (Fill.openPackage template)
  let names ← worded (ofExcept (package.templateBookmarks .markup 0))
  return if json then prettyList names ++ "\n" else String.join (names.map (· ++ "\n"))

/-- Run the command `text`. -/
def runText (template bookmark : String) : ExceptT String m String := do
  let package ← worded (Fill.openPackage template)
  let main ← worded (ofExcept package.mainPart)
  let root ← worded (ofExcept (package.document main))
  let text ← worded (ofExcept (Bookmark.text root bookmark))
  return text ++ "\n"

/-- Run a command. -/
def runInvocation : Invocation → ExceptT String m String
  | .fill request => runFill request
  | .list template json => runList template json
  | .text template bookmark => runText template bookmark

/-- What the program answers when it is asked for its version. -/
def versionLine : String := "docx-bookmarks 0.1.0\n"

/-- How the program is used. -/
def usage : String :=
  "Usage: docx-bookmarks [-v] fill TEMPLATE DATA -o OUTPUT [--temp PATH] [--html-prefix PREFIX] [--json]\n" ++
  "       docx-bookmarks [-v] list TEMPLATE [--json]\n" ++
  "       docx-bookmarks [-v] text TEMPLATE NAME\n"

/-- Run a command line. -/
def run (arguments : List String) : m Report := do
  match read arguments with
  | .error .help => return .success usage
  | .error .version => return .success versionLine
  | .error (.fault fault) => return ⟨2, "", "error: " ++ fault.message ++ "\n\n" ++ usage⟩
  | .ok invocation =>
      match ← (runInvocation invocation).run with
      | .ok output => return .success output
      | .error message => return .failure message

end TemplateFill.CommandLine
