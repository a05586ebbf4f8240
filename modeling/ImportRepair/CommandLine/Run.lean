import ImportRepair.CommandLine.Arguments
import ImportRepair.CommandLine.Files
import ImportRepair.Declaration.Record
import ImportRepair.Declaration.Text
import ImportRepair.Evaluation
import ImportRepair.Settings

/-!
# Runs of the program

What a run answers: its exit code and what it prints. Exit code 0 stands for success, 1 for a
failure, and 2 for a repair that is needed when the check is strict.

## Implementation notes

The verdict on an evaluation is a function of the settings and of the text of the evaluation;
`check` adds the reading and writing of files around it.
-/

namespace ImportRepair.CommandLine

/-- Why a run fails. -/
inductive Failure
  | readConfig (path : String)
  | parseConfig (path : String) (e : SettingsError)
  | readEvaluation (path : String)
  | parseEvaluation (path : String) (e : Json.ReadError)
  | unsupportedSchema (schema path : String)
  | check (e : Evaluation.CheckError)
  | write (path : String)
  | parseArgument (kind : DepKind) (e : Json.ReadError)
  | declaration (e : DeclarationError)
  | command (e : CommandError)
  deriving DecidableEq, Repr

namespace Failure

/-- The message of a failure. -/
def message : Failure → String
  | .readConfig path => "load usefix.toml config: read config file " ++ path
  | .parseConfig path e =>
    "load usefix.toml config: parse config file " ++ path ++ ": " ++ e.message
  | .readEvaluation path => "read " ++ path
  | .parseEvaluation path _ => "parse evaluation " ++ path
  | .unsupportedSchema schema path => Evaluation.schemaMessage schema path
  | .check e => e.message
  | .write path => "write " ++ path
  | .parseArgument kind _ => "parse " ++ kind.attributeName ++ " as JSON"
  | .declaration e => e.message
  | .command e => e.message

/-- Holds when the message is the whole account of a failure. The account of the other failures
goes on with a cause from outside, such as the answer of the operating system. -/
def isComplete : Failure → Bool
  | .unsupportedSchema _ _ => true
  | .check _ => true
  | .declaration _ => true
  | .command _ => true
  | _ => false

/-- The line that is printed for a failure; it is left open where a cause from outside follows. -/
def line (f : Failure) : String := "error: " ++ f.message ++ if f.isComplete then "\n" else ""

end Failure

/-- What a run answers. -/
structure Outcome where
  exit : Nat
  stdout : String := ""
  stderr : String := ""
  deriving DecidableEq, Repr

/-- The outcome of a failure. -/
def Outcome.ofFailure (f : Failure) : Outcome := ⟨1, "", f.line⟩

/-- The outcome of a computation that prints its result. -/
def Outcome.ofResult : Except Failure String → Outcome
  | .ok text => ⟨0, text, ""⟩
  | .error f => .ofFailure f

/-- The exit code of a strict check that finds a repair to be needed. -/
def repairNeeded : Nat := 2

/-- The repair that the text of an evaluation calls for. -/
def repairOfText (path text : String) : Except Failure (Option Repair) :=
  match Evaluation.load text with
  | .error (.unreadable e) => .error (.parseEvaluation path e)
  | .error (.unsupportedSchema schema) => .error (.unsupportedSchema schema path)
  | .ok e =>
    match e.check with
    | .error err => .error (.check err)
    | .ok r => .ok r

/-- The report on the text of an evaluation, and the exit code. -/
def verdict (settings : Settings) (path text : String) : Except Failure (String × Nat) :=
  match repairOfText path text with
  | .error f => .error f
  | .ok r =>
    .ok (report settings.format r, if r.isSome && settings.strict then repairNeeded else 0)

/-- The settings file that is looked for when none is named. -/
def defaultConfig : String := "./usefix.toml"

section
variable {m : Type → Type} [Monad m]

/-- Load the settings file with a path. -/
def loadSettings (fs : FileAccess m) (path : String) : m (Except Failure Settings) := do
  match ← fs.read path with
  | none => return .error (.readConfig path)
  | some text =>
    match Settings.parse text with
    | .ok s => return .ok s
    | .error e => return .error (.parseConfig path e)

/-- The settings for a check: of the file that is named, else of the default file if there is
one. -/
def settingsFor (fs : FileAccess m) (a : CheckArguments) : m (Except Failure Settings) := do
  match a.config with
  | some path => loadSettings fs path
  | none =>
    if ← fs.exists? defaultConfig then loadSettings fs defaultConfig else return .ok {}

/-- Check an evaluation. -/
def check (fs : FileAccess m) (a : CheckArguments) : m Outcome := do
  match ← settingsFor fs a with
  | .error f => return .ofFailure f
  | .ok settings =>
    match ← fs.read a.evaluation with
    | none => return .ofFailure (.readEvaluation a.evaluation)
    | some text =>
      match verdict (settings.override a.format a.strict) a.evaluation text with
      | .error f => return .ofFailure f
      | .ok (rendered, code) =>
        match a.out with
        | none => return ⟨code, rendered, ""⟩
        | some out =>
          if ← fs.write out rendered then return ⟨code, "", ""⟩
          else return .ofFailure (.write out)

/-- The persisted form of the declaration that texts stand for. -/
def metadata (deps devDeps : Option String) (reproducible : Bool) : Except Failure String :=
  match Declaration.ofTexts deps devDeps reproducible with
  | .ok d => .ok (d.persisted ++ "\n")
  | .error (.unreadable kind e) => .error (.parseArgument kind e)
  | .error (.invalid e) => .error (.declaration e)

/-- The JSON form of the command that a text stands for. -/
def parseCommand (text : String) : Except Failure String :=
  match Command.parse text with
  | .error e => .error (.command e)
  | .ok c =>
    .ok ((Json.object [("action", .string c.action.keyword), ("proxy_label", .string c.label),
      ("repos", .strings c.repos.toList)]).prettyText ++ "\n")

/-- Run what the arguments ask for. -/
def run (fs : FileAccess m) : Invocation → m Outcome
  | .check a => check fs a
  | .metadata deps devDeps reproducible =>
    return .ofResult (metadata deps devDeps reproducible)
  | .parseCommand text => return .ofResult (parseCommand text)

end

end ImportRepair.CommandLine
