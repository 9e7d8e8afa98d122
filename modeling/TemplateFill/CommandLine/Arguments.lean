import TemplateFill.Text.Cut

/-!
# Command line arguments

A command line is a command with its options and operands.  An option has a long name, or
one letter too; letters can be written together, and a value can follow its option directly
or as the next argument.  Two dashes alone end the options.
-/

namespace TemplateFill.CommandLine

open TemplateFill.Text

/-- The commands. -/
inductive Command where
  | fill
  | list
  | text
  deriving DecidableEq, Repr

/-- The options of all commands. -/
inductive Flag where
  | help
  | version
  | verbose
  | json
  | output
  | temp
  | htmlMark
  deriving DecidableEq, Repr

/-- Why a command line cannot be used. -/
inductive UsageFault where
  | noCommand
  | unknownCommand (name : String)
  | unexpected (argument : String)
  | repeated (flag : Flag)
  | missingValue (flag : Flag)
  | valueForSwitch (flag : Flag)
  /-- A path that has no characters. -/
  | emptyPath
  | missingOperand (command : Command)
  | missingOutput
  deriving DecidableEq, Repr

/-- Why the reading of a command line stops early. -/
inductive Stop where
  | help
  | version
  | fault (fault : UsageFault)
  deriving DecidableEq, Repr

/-- What the command `fill` is asked to do. -/
structure FillRequest where
  template : String
  data : String
  output : String
  /-- Where to work, if not next to the output. -/
  temp : Option String
  htmlMark : Option String
  json : Bool
  deriving DecidableEq, Repr

/-- A command with its arguments. -/
inductive Invocation where
  | fill (request : FillRequest)
  | list (template : String) (json : Bool)
  | text (template bookmark : String)
  deriving DecidableEq, Repr

/-- The long name of an option. -/
def Flag.longName : Flag → String
  | .help => "help"
  | .version => "version"
  | .verbose => "verbose"
  | .json => "json"
  | .output => "output"
  | .temp => "temp"
  | .htmlMark => "html-prefix"

/-- The letter of an option. -/
def Flag.letter? : Flag → Option Char
  | .help => some 'h'
  | .version => some 'V'
  | .verbose => some 'v'
  | .output => some 'o'
  | _ => none

/-- Whether an option has a value. -/
def Flag.takesValue : Flag → Bool
  | .output => true
  | .temp => true
  | .htmlMark => true
  | _ => false

/-- Whether the value of an option is a path. -/
def Flag.takesPath : Flag → Bool
  | .output => true
  | .temp => true
  | _ => false

/-- The options in front of the command. -/
def generalFlags : List Flag := [.help, .version, .verbose]

/-- The options of a command. -/
def Command.flags : Command → List Flag
  | .fill => [.help, .verbose, .output, .temp, .htmlMark, .json]
  | .list => [.help, .verbose, .json]
  | .text => [.help, .verbose]

/-- Whether each operand of a command is a path. -/
def Command.operandsArePaths : Command → List Bool
  | .fill => [true, true]
  | .list => [true]
  | .text => [true, false]

/-- The command of a name. -/
def command? : String → Option Command
  | "fill" => some .fill
  | "list" => some .list
  | "text" => some .text
  | _ => none

/-- What has been read of a command line. -/
structure Given where
  operands : List String
  flags : List (Flag × String)
  deriving DecidableEq, Repr

/-- Nothing has been read. -/
def Given.nothing : Given := ⟨[], []⟩

/-- Whether an option has been given. -/
def Given.has (given : Given) (flag : Flag) : Bool := (given.flags.lookup flag).isSome

/-- Take an option with its value, which is empty for a switch. -/
def Given.addFlag (given : Given) (flag : Flag) (value : String) : Except Stop Given :=
  if flag = .help then .error .help
  else if flag = .version then .error .version
  else if given.has flag then .error (.fault (.repeated flag))
  else if flag.takesPath ∧ value = "" then .error (.fault .emptyPath)
  else .ok { given with flags := given.flags ++ [(flag, value)] }

/-- Take an operand of a command. -/
def Given.addOperand (given : Given) (command : Command) (value : String) : Except Stop Given :=
  match command.operandsArePaths[given.operands.length]? with
  | none => .error (.fault (.unexpected value))
  | some isPath =>
      if isPath && value == "" then .error (.fault .emptyPath)
      else .ok { given with operands := given.operands ++ [value] }

/-- Whether an argument is written like an option. -/
def looksLikeOption (argument : String) : Bool :=
  match argument.toList with
  | '-' :: _ :: _ => true
  | _ => false

/-- Take letters written together behind one dash.  A value follows directly, after an equals
sign or not; an option without it waits for the next argument. -/
def addLetters (flags : List Flag) (given : Given) (argument : String) :
    List Char → Except Stop (Given × Option Flag)
  | [] => .ok (given, none)
  | letter :: rest =>
      match flags.find? (·.letter? == some letter) with
      | none => .error (.fault (.unexpected argument))
      | some flag =>
          if flag.takesValue then
            match rest with
            | [] => .ok (given, some flag)
            | '=' :: value => return (← given.addFlag flag (String.ofList value), none)
            | value => return (← given.addFlag flag (String.ofList value), none)
          else do
            addLetters flags (← given.addFlag flag "") argument rest

/-- Take an option with a long name. -/
def addLong (flags : List Flag) (given : Given) (argument : String) (name : List Char) :
    Except Stop (Given × Option Flag) :=
  let (name, value?) :=
    match cutFirst? '=' name with
    | some (name, value) => (name, some (String.ofList value))
    | none => (name, none)
  match flags.find? (·.longName.toList == name), value? with
  | none, _ => .error (.fault (.unexpected argument))
  | some flag, some value =>
      if flag.takesValue then return (← given.addFlag flag value, none)
      else .error (.fault (.valueForSwitch flag))
  | some flag, none =>
      if flag.takesValue then .ok (given, some flag)
      else return (← given.addFlag flag "", none)

/-- Take an option, which may wait for a value. -/
def addOption (flags : List Flag) (given : Given) (argument : String) :
    Except Stop (Given × Option Flag) :=
  match argument.toList with
  | '-' :: '-' :: name => addLong flags given argument name
  | '-' :: letters => addLetters flags given argument letters
  | _ => .error (.fault (.unexpected argument))

/-- Take operands only. -/
def addOperands (command : Command) (given : Given) : List String → Except Stop Given
  | [] => .ok given
  | argument :: rest => do addOperands command (← given.addOperand command argument) rest

/-- Take the arguments of a command; the option `waiting` still needs its value. -/
def addArguments (command : Command) (given : Given) (waiting : Option Flag) :
    List String → Except Stop Given
  | [] =>
      match waiting with
      | some flag => .error (.fault (.missingValue flag))
      | none => .ok given
  | argument :: rest =>
      match waiting with
      | some flag =>
          if looksLikeOption argument then .error (.fault (.missingValue flag))
          else do addArguments command (← given.addFlag flag argument) none rest
      | none =>
          if argument = "--" then addOperands command given rest
          else if looksLikeOption argument then do
            let (given, waiting) ← addOption command.flags given argument
            addArguments command given waiting rest
          else do
            addArguments command (← given.addOperand command argument) none rest

/-- What a command with its arguments asks for. -/
def Given.invocation (given : Given) (command : Command) : Except UsageFault Invocation :=
  match command, given.operands with
  | .fill, [template, data] =>
      match given.flags.lookup .output with
      | none => .error .missingOutput
      | some output =>
          .ok (.fill ⟨template, data, output, given.flags.lookup .temp,
            given.flags.lookup .htmlMark, given.has .json⟩)
  | .list, [template] => .ok (.list template (given.has .json))
  | .text, [template, bookmark] => .ok (.text template bookmark)
  | command, _ => .error (.missingOperand command)

/-- Read a request for help, which may name a command. -/
def readHelp : List String → Stop
  | [] => .help
  | [name] =>
      if name = "help" ∨ (command? name).isSome then .help
      else .fault (.unknownCommand name)
  | _ :: argument :: _ => .fault (.unexpected argument)

/-- Read a command line behind the options `given`. -/
def readFrom (given : Given) : List String → Except Stop Invocation
  | [] => .error (.fault .noCommand)
  | argument :: rest =>
      if argument = "--" then
        .error (.fault (rest.head?.elim .noCommand .unexpected))
      else if looksLikeOption argument then do
        let (given, _) ← addOption generalFlags given argument
        readFrom given rest
      else if argument = "help" then .error (readHelp rest)
      else
        match command? argument with
        | none => .error (.fault (.unknownCommand argument))
        | some command => do
            let given ← addArguments command .nothing none rest
            (given.invocation command).mapError .fault

/-- Read a command line. -/
def read (arguments : List String) : Except Stop Invocation := readFrom .nothing arguments

/-- How an option is shown. -/
def Flag.shown (flag : Flag) : String := "--" ++ flag.longName

/-- The wording of a usage fault. -/
def UsageFault.message : UsageFault → String
  | .noCommand => "a command is required"
  | .unknownCommand name => "unrecognized command '" ++ name ++ "'"
  | .unexpected argument => "unexpected argument '" ++ argument ++ "' found"
  | .repeated flag => "the argument '" ++ flag.shown ++ "' cannot be used multiple times"
  | .missingValue flag => "a value is required for '" ++ flag.shown ++ "' but none was supplied"
  | .valueForSwitch flag => "unexpected value for '" ++ flag.shown ++ "' found"
  | .emptyPath => "a value is required for a path but none was supplied"
  | .missingOperand _ => "required arguments were not provided"
  | .missingOutput => "the required argument '--output' was not provided"

end TemplateFill.CommandLine
