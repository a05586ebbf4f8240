import ImportRepair.Repair.Report

/-!
# Arguments of the command line

The program has three subcommands: `check`, `metadata` and `parse-command`. Each takes options with
a value, flags, and at most one operand.

## Implementation notes

An option takes the next argument as its value unless that begins with a dash, and is settled when
the next thing that is known comes, or at the end. Only then is it refused, so an argument that is
not known at all is reported before an option that lacks its value.
-/

namespace ImportRepair.CommandLine

/-- Why arguments are not run. Help and version are answered in place of a run. -/
inductive UsageError
  | displayHelp
  | displayVersion
  | missingSubcommand
  | invalidSubcommand
  | missingRequiredArgument
  | unknownArgument
  | invalidValue
  | argumentConflict
  | tooManyValues
  deriving DecidableEq, Repr

/-- The name of the kind of error. -/
def UsageError.name : UsageError → String
  | .displayHelp => "DisplayHelp"
  | .displayVersion => "DisplayVersion"
  | .missingSubcommand => "DisplayHelpOnMissingArgumentOrSubcommand"
  | .invalidSubcommand => "InvalidSubcommand"
  | .missingRequiredArgument => "MissingRequiredArgument"
  | .unknownArgument => "UnknownArgument"
  | .invalidValue => "InvalidValue"
  | .argumentConflict => "ArgumentConflict"
  | .tooManyValues => "TooManyValues"

/-- The form of an argument. -/
inductive Form
  /-- Two dashes alone: all that follows are operands. -/
  | separator
  /-- A name after two dashes, with a value after an equals sign. -/
  | long (name : String) (value : Option String)
  /-- A character after one dash. -/
  | short (c : Char)
  | word (text : String)
  deriving DecidableEq, Repr

/-- The form of an argument. -/
def Form.ofArgument (argument : String) : Form :=
  match argument.toList with
  | ['-', '-'] => .separator
  | '-' :: '-' :: cs =>
    let name := cs.takeWhile (· != '=')
    let value := match cs.drop name.length with
      | [] => none
      | _ :: v => some (String.ofList v)
    .long (String.ofList name) value
  | '-' :: c :: _ => .short c
  | _ => .word argument

/-- The options, the flags and the operand that a subcommand knows. -/
structure Grammar where
  /-- The options that take a value, each with the values that it accepts. -/
  options : List (String × (String → Bool))
  flags : List String
  /-- Whether there is an operand, which then has to be given. -/
  operand : Bool

/-- The arguments of a subcommand so far. -/
structure Given where
  options : List (String × String) := []
  flags : List String := []
  operand : Option String := none
  /-- An option that is not settled yet, with its value if it has come. -/
  pending : Option (String × Option String) := none
  deriving DecidableEq, Repr

namespace Given

/-- Take up an option with its value. -/
def setOption (g : Given) (accepts : String → Bool) (name value : String) :
    Except UsageError Given :=
  if (g.options.lookup name).isSome then .error .argumentConflict
  else if accepts value then .ok { g with options := (name, value) :: g.options }
  else .error .invalidValue

/-- Take up a flag. -/
def setFlag (g : Given) (name : String) : Except UsageError Given :=
  if name ∈ g.flags then .error .argumentConflict else .ok { g with flags := name :: g.flags }

/-- Settle the pending option. -/
def settle (g : Given) (grammar : Grammar) : Except UsageError Given :=
  match g.pending with
  | none => .ok g
  | some (_, none) => .error .invalidValue
  | some (name, some value) =>
    let accepts := (grammar.options.lookup name).getD fun _ => true
    { g with pending := none }.setOption accepts name value

/-- Take up an operand. -/
def addOperand (g : Given) (grammar : Grammar) (text : String) : Except UsageError Given :=
  if grammar.operand ∧ g.operand = none then do return { (← g.settle grammar) with operand := text }
  else .error .unknownArgument

/-- Take up a word, as the value of the pending option or as an operand. -/
def addWord (g : Given) (grammar : Grammar) (text : String) : Except UsageError Given :=
  match g.pending with
  | some (name, none) => .ok { g with pending := some (name, some text) }
  | _ => g.addOperand grammar text

/-- Take up a long argument. -/
def addLong (g : Given) (grammar : Grammar) (name : String) (value : Option String) :
    Except UsageError Given :=
  if name = "help" ∨ name ∈ grammar.flags then
    if value.isSome then .error .tooManyValues
    else do
      let g ← g.settle grammar
      if name = "help" then .error .displayHelp else g.setFlag name
  else match grammar.options.lookup name with
    | none => .error .unknownArgument
    | some accepts => do
      let g ← g.settle grammar
      match value with
      | some v => g.setOption accepts name v
      | none => .ok { g with pending := some (name, none) }

/-- Take up a short argument; there is only the one for help. -/
def addShort (g : Given) (grammar : Grammar) (c : Char) : Except UsageError Given :=
  if c = 'h' then do
    let _ ← g.settle grammar
    .error .displayHelp
  else .error .unknownArgument

/-- Take up the arguments of a subcommand; `operandsOnly` tells that the separator has come. -/
def addAll (grammar : Grammar) (operandsOnly : Bool) : Given → List String → Except UsageError Given
  | g, [] => do
    let g ← g.settle grammar
    if grammar.operand ∧ g.operand = none then .error .missingRequiredArgument else .ok g
  | g, argument :: arguments =>
    if operandsOnly then do
      addAll grammar true (← g.addOperand grammar argument) arguments
    else match Form.ofArgument argument with
      | .separator => addAll grammar true g arguments
      | .long name value => do addAll grammar false (← g.addLong grammar name value) arguments
      | .short c => do addAll grammar false (← g.addShort grammar c) arguments
      | .word text => do addAll grammar false (← g.addWord grammar text) arguments

end Given

/-- The arguments of a check. -/
structure CheckArguments where
  /-- The path of the evaluation. -/
  evaluation : String
  format : Option ReportFormat := none
  /-- The path that the report is written to. -/
  out : Option String := none
  strict : Bool := false
  /-- The path of the settings file. -/
  config : Option String := none
  deriving DecidableEq, Repr

/-- What the arguments ask for. -/
inductive Invocation
  | check (arguments : CheckArguments)
  /-- Validate a declaration, given by JSON texts. -/
  | metadata (deps devDeps : Option String) (reproducible : Bool)
  /-- Parse a command. -/
  | parseCommand (text : String)
  deriving DecidableEq, Repr

/-- The subcommands. -/
inductive Subcommand
  | check
  | metadata
  | parseCommand
  deriving DecidableEq, Repr

namespace Subcommand

/-- The names of the subcommands. -/
def names : List (String × Subcommand) :=
  [("check", .check), ("metadata", .metadata), ("parse-command", .parseCommand)]

/-- Any value will do. -/
def anyValue : String → Bool := fun _ => true

/-- What a subcommand knows. -/
def grammar : Subcommand → Grammar
  | .check => {
      options := [("format", fun v => (ReportFormat.ofName? v).isSome), ("out", anyValue),
        ("config", anyValue)]
      flags := ["strict"]
      operand := true }
  | .metadata => {
      options := [("deps", anyValue), ("dev-deps", anyValue)]
      flags := ["reproducible"]
      operand := false }
  | .parseCommand => { options := [], flags := [], operand := true }

/-- What the arguments of a subcommand ask for. -/
def invocation (g : Given) : Subcommand → Invocation
  | .check => .check {
      evaluation := g.operand.getD ""
      format := (g.options.lookup "format").bind ReportFormat.ofName?
      out := g.options.lookup "out"
      strict := "strict" ∈ g.flags
      config := g.options.lookup "config" }
  | .metadata =>
    .metadata (g.options.lookup "deps") (g.options.lookup "dev-deps") ("reproducible" ∈ g.flags)
  | .parseCommand => .parseCommand (g.operand.getD "")

end Subcommand

/-- Answer a request for help on a path of subcommands. -/
def helpOn : List String → UsageError
  | [] => .displayHelp
  | [name] =>
    if name = "help" ∨ (Subcommand.names.lookup name).isSome then .displayHelp
    else .invalidSubcommand
  | _ => .invalidSubcommand

/-- What the arguments of the program ask for. -/
def parse : List String → Except UsageError Invocation
  | [] => .error .missingSubcommand
  | argument :: arguments =>
    match Form.ofArgument argument with
    | .separator =>
      match arguments with
      | [] => .error .missingSubcommand
      | name :: _ =>
        if name = "help" ∨ (Subcommand.names.lookup name).isSome then .error .unknownArgument
        else .error .invalidSubcommand
    | .long name value =>
      if name = "help" ∨ name = "version" then
        if value.isSome then .error .tooManyValues
        else if name = "help" then .error .displayHelp
        else .error .displayVersion
      else .error .unknownArgument
    | .short c =>
      if c = 'h' then .error .displayHelp
      else if c = 'V' then .error .displayVersion
      else .error .unknownArgument
    | .word name =>
      if name = "help" then .error (helpOn arguments)
      else match Subcommand.names.lookup name with
        | some s => do
          let given ← Given.addAll s.grammar false {} arguments
          return s.invocation given
        | none => .error .invalidSubcommand

end ImportRepair.CommandLine
