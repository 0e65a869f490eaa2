import Stasis.Engine

/-!
# The command line

* `Command.parse`: what the words of a command line ask for.
* `Command.report`: what the command prints, and the file that it writes. Files are read through a
  function, so a report can be had for any files.
* `CommandError.message`: what is said of a command that fails.
-/

namespace Stasis

/-- What can be asked for. -/
inductive Subcommand where
  | instrument
  | snapshot
  | resume
deriving DecidableEq

/-- Every subcommand. -/
def Subcommand.all : List Subcommand := [instrument, snapshot, resume]

/-- The word for a subcommand. -/
def Subcommand.name : Subcommand → String
  | instrument => "instrument"
  | snapshot => "snapshot"
  | resume => "resume"

/-- The flags that a subcommand knows. -/
def Subcommand.flags : Subcommand → List String
  | instrument => ["--input", "--output", "--wrap-expressions"]
  | snapshot => ["--input", "--config", "--pretty", "--events"]
  | resume => ["--input", "--config", "--call", "--events"]

/-- What the flags of a command say. -/
structure Flags where
  input : Option String := none
  output : Option String := none
  config : Option String := none
  wrapExpressions : Bool := false
  pretty : Bool := false
  events : Bool := false
  call : Bool := false

/-- What is asked for. -/
inductive Command where
  | help
  | run (subcommand : Subcommand) (flags : Flags)

/-- Why a command fails. -/
inductive CommandError where
  | noCommand
  | unknownSubcommand (name : String)
  | unknownFlag (subcommand : Subcommand) (flag : String)
  | noPath (flag : String)
  | noInput
  | unreadableInput (path cause : String)
  | unreadableConfig (path cause : String)
  | badConfig (path : String)
  | unwritable (path cause : String)
  | source (error : Script.SourceError)
  | engine (error : EngineError)
  | unfinished

/-- How the program is used. -/
def usage : String :=
  String.intercalate "\n" [
    "franken-instrument usage:",
    "  franken-instrument instrument --input <script.js> [--wrap-expressions] [--output <path>]",
    "  franken-instrument snapshot --input <script.js> [--config <config.json>] [--pretty] [--events]",
    "  franken-instrument resume --input <envelope.json> [--config <config.json>] [--call] [--events]",
    "",
    "snapshot runs the instrumented script and serializes its completion value;",
    "resume rebuilds an envelope in a fresh realm and prints the value",
    "(calling it with no arguments first when --call is given)."]

/-- What is said of a command that fails. -/
def CommandError.message : CommandError → String
  | noCommand => usage
  | unknownSubcommand name => "unknown subcommand '" ++ name ++ "'\n\n" ++ usage
  | unknownFlag subcommand flag => "unknown flag for " ++ subcommand.name ++ ": " ++ flag
  | noPath flag => flag ++ " requires a path"
  | noInput => "missing required --input <path>"
  | unreadableInput path cause => "failed to read input " ++ path ++ ": " ++ cause
  | unreadableConfig path cause => "failed to read config " ++ path ++ ": " ++ cause
  | badConfig path => "failed to parse config " ++ path ++ ": this is not a configuration"
  | unwritable path cause => "failed to write " ++ path ++ ": " ++ cause
  | source error => error.describe
  | engine error => error.code ++ ": " ++ error.message
  | unfinished => "the bound on the work was too low"

/-- The exit code of a command that fails. -/
def failureCode : Nat := 2

/-- What a command does. -/
structure Report where
  /-- What it prints. -/
  output : String := ""
  /-- The file that it writes, if it writes one: its path and its content. -/
  file : Option (String × String) := none

namespace Command

/-- Reads the flags of a subcommand. Of a flag that is given twice the last one counts. -/
def parseFlags (subcommand : Subcommand) (flags : Flags) :
    List String → Except CommandError Flags
  | [] => .ok flags
  | flag :: rest =>
    if !subcommand.flags.contains flag then .error (.unknownFlag subcommand flag)
    else if flag = "--wrap-expressions" then
      parseFlags subcommand { flags with wrapExpressions := true } rest
    else if flag = "--pretty" then parseFlags subcommand { flags with pretty := true } rest
    else if flag = "--events" then parseFlags subcommand { flags with events := true } rest
    else if flag = "--call" then parseFlags subcommand { flags with call := true } rest
    else
      match rest with
      | [] => .error (.noPath flag)
      | path :: rest =>
        if flag = "--input" then parseFlags subcommand { flags with input := some path } rest
        else if flag = "--output" then
          parseFlags subcommand { flags with output := some path } rest
        else parseFlags subcommand { flags with config := some path } rest

/-- What the words of a command line ask for. -/
def parse : List String → Except CommandError Command
  | [] => .error .noCommand
  | word :: rest =>
    if ["help", "--help", "-h"].contains word then .ok .help
    else
      match Subcommand.all.find? fun subcommand => subcommand.name == word with
      | some subcommand => do return .run subcommand (← parseFlags subcommand {} rest)
      | none => .error (.unknownSubcommand word)

/-- The files that a command reads. -/
def paths : Command → List String
  | help => []
  | run _ flags => flags.input.toList ++ flags.config.toList

/-- The answer of an action, or its failure. -/
def answerOf {α : Type} : Except Fault α → Except CommandError α
  | .ok a => .ok a
  | .error (.error cause) => .error (.engine cause)
  | .error .outOfFuel => .error .unfinished

/-- A text on a line. -/
def line (s : String) : String := s ++ "\n"

/-- The events of a realm on lines, if they are asked for. -/
def eventLines (flags : Flags) (r : Realm) : String :=
  if flags.events then String.join (r.events.drain.1.map fun e => line e.toJson.compact) else ""

variable (read : String → Except String String)

/-- The content of the input file. -/
def inputText (flags : Flags) : Except CommandError String :=
  match flags.input with
  | none => .error .noInput
  | some path => (read path).mapError (.unreadableInput path)

/-- The configuration that is given, or the one of defaults. -/
def configuration (flags : Flags) : Except CommandError Config :=
  match flags.config with
  | none => .ok {}
  | some path => do
    match Config.parse? (← (read path).mapError (.unreadableConfig path)) with
    | some config => return config
    | none => throw (.badConfig path)

/-- Instruments a script. -/
def instrument (flags : Flags) : Except CommandError Report := do
  let source ← inputText read flags
  match Script.instrument source flags.wrapExpressions with
  | .error e => throw (.source e)
  | .ok text =>
    match flags.output with
    | some path => return { file := some (path, text) }
    | none => return { output := line text }

variable [Machine]

/-- Runs an action in a new realm; the answer has the realm afterwards. -/
def inRealm {α : Type} (config : Config) (action : Run α) : Except CommandError (α × Realm) := do
  let realm ← answerOf (Realm.start config)
  let (outcome, realm) := realm.run action
  return (← answerOf outcome, realm)

/-- Runs an instrumented script and suspends its value. -/
def snapshot (flags : Flags) : Except CommandError Report := do
  let source ← inputText read flags
  let (e, realm) ← inRealm (← configuration read flags) do
    serialize (← evalInstrumented source) {}
  let text := if flags.pretty then e.pretty else e.compact
  return { output := line text ++ eventLines flags realm }

/-- Resumes an envelope and prints its value, or what comes of calling it. -/
def resume (flags : Flags) : Except CommandError Report := do
  let text ← inputText read flags
  let e ← answerOf ((Envelope.parse text).mapError .error)
  let (shown, realm) ← inRealm (← configuration read flags) do
    let v ← deserialize e
    display (← if flags.call then call v .undefined [] else pure v)
  return { output := line shown ++ eventLines flags realm }

/-- What a command does. -/
def report : Command → Except CommandError Report
  | .help => .ok { output := line usage }
  | .run .instrument flags => instrument read flags
  | .run .snapshot flags => snapshot read flags
  | .run .resume flags => resume read flags

end Command

end Stasis
