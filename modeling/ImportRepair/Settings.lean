import ImportRepair.Repair.Report
import ImportRepair.Toml.Document

/-!
# Settings

A settings file chooses the format of reports and whether a needed repair counts as a failure.
Arguments of the command line may choose another format and may turn strictness on.

## Implementation notes

What stands under a key that is not known does not matter, as long as it has a value. A section may
also be written as an array of its values in order, of which further ones are not looked at, and a
date counts as a section that sets nothing.
-/

namespace ImportRepair

/-- The settings in effect for a check. -/
structure Settings where
  format : ReportFormat := .text
  strict : Bool := false
  deriving DecidableEq, Repr

/-- Why there are no settings. -/
inductive SettingsError
  | invalidToml
  | unknownFormat (name : String)
  deriving DecidableEq, Repr

/-- The message shown to the user. -/
def SettingsError.message : SettingsError → String
  | .invalidToml => "invalid TOML"
  | .unknownFormat name => "invalid variant: " ++ name

namespace Toml

/-- The setting of a section under one of its keys, which is the element at the same place when the
section is an array; `none` for a value that is no section. -/
def setting? (keys : List String) (key : String) : Toml → Option (Option Toml)
  | .table entries =>
    if entries.all fun e => keys.contains e.1 || e.2.isReadable then some (entries.lookup key)
    else none
  | .array items => some items[keys.idxOf key]?
  | .datetime => some none
  | _ => none

/-- The format that a value names: a word, or a table that has the word as its only key and an
empty value under it. -/
def format? : Toml → Option ReportFormat
  | .string name => ReportFormat.ofName? name
  | .table [(name, .table [])] => ReportFormat.ofName? name
  | .table [(name, .array [])] => ReportFormat.ofName? name
  | _ => none

/-- A truth value. -/
def boolean? : Toml → Option Bool
  | .boolean b => some b
  | _ => none

end Toml

namespace Settings

/-- The value of a setting that may be absent. -/
def orDefault {α : Type} (absent : α) (read : Toml → Option α) : Option Toml → Option α
  | some v => read v
  | none => some absent

/-- The sections of a document. -/
def sections : List String := ["output", "check"]

/-- The settings of a document. -/
def ofToml (document : Toml) : Option Settings := do
  let format ← orDefault ReportFormat.text
    (fun s => do orDefault .text Toml.format? (← s.setting? ["format"] "format"))
    (← document.setting? sections "output")
  let strict ← orDefault false
    (fun s => do orDefault false Toml.boolean? (← s.setting? ["strict"] "strict"))
    (← document.setting? sections "check")
  return ⟨format, strict⟩

/-- Read the text of a settings file. -/
def parse (text : String) : Except SettingsError Settings :=
  match (Toml.parse text).bind ofToml with
  | some s => .ok s
  | none => .error .invalidToml

/-- The settings after the arguments of the command line. -/
def override (s : Settings) (format : Option ReportFormat) (strict : Bool) : Settings :=
  ⟨format.getD s.format, strict || s.strict⟩

end Settings

/-- The format that a word stands for, or the failure to name one. -/
def ReportFormat.parse (name : String) : Except SettingsError ReportFormat :=
  match ReportFormat.ofName? name with
  | some f => .ok f
  | none => .error (.unknownFormat name)

end ImportRepair
