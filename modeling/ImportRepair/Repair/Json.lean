import ImportRepair.Repair.Basic
import ImportRepair.Usage.Json

/-!
# Repairs as JSON

The records of commands, edit plans, diagnostics and repairs. A command stands as its text, which is
read back when a document is loaded.
-/

namespace ImportRepair

open Json (Fields Reader)
open Json.Fields

/-- The words for the actions. -/
def Action.names : List (String × Action) := [("add", .add), ("remove", .remove)]

/-- Read an action. -/
def Action.reader : Reader Action := Reader.variant Action.names

/-- Read a command from its text. -/
def Command.reader : Reader Command :=
  .checked Reader.string Command.parse CommandError.message

namespace FileEdits

/-- The fields of the commands for a file. -/
def fields : Fields FileEdits :=
  FileEdits.mk <$> required "path" ModulePath.reader <*>
    required "commands" (Reader.list Command.reader)

/-- Read the commands for a file. -/
def reader : Reader FileEdits := Reader.record "FileCommands" fields

/-- The JSON form of the commands for a file. -/
def toJson (f : FileEdits) : Json :=
  .object [("path", .string f.path.text), ("commands", .strings (f.commands.map Command.text))]

end FileEdits

namespace EditPlan

/-- Read an edit plan; its entries are taken as they are. -/
def reader : Reader EditPlan := fun t => (Reader.list FileEdits.reader t).map .mk

/-- The JSON form of an edit plan. -/
def toJson (plan : EditPlan) : Json := .array (plan.files.map FileEdits.toJson)

end EditPlan

namespace Severity

/-- The words for severities in documents. -/
def names : List (String × Severity) := [("info", .info), ("warning", .warning), ("error", .error)]

/-- The word for a severity in a document. -/
def name : Severity → String
  | .info => "info"
  | .warning => "warning"
  | .error => "error"

end Severity

namespace Diagnostic

/-- The fields of a diagnostic. -/
def fields : Fields Diagnostic :=
  Diagnostic.mk <$> required "severity" (Reader.variant Severity.names) <*>
    required "location" Location.reader <*> required "message" Reader.string

/-- Read a diagnostic. -/
def reader : Reader Diagnostic := Reader.record "Event" fields

/-- The JSON form of a diagnostic. -/
def toJson (d : Diagnostic) : Json :=
  .object [("severity", .string d.severity.name), ("location", d.location.toJson),
    ("message", .string d.message)]

end Diagnostic

namespace Repair

/-- The fields of a repair. -/
def fields : Fields Repair :=
  Repair.mk <$> required "schema" Reader.string <*> required "commands" EditPlan.reader <*>
    required "usage" Usage.reader <*> required "warning" Diagnostic.reader

/-- Read a repair. -/
def reader : Reader Repair := Reader.record "Fixup" fields

/-- The JSON form of a repair. -/
def toJson (r : Repair) : Json :=
  .object [("schema", .string r.schema), ("commands", r.commands.toJson),
    ("usage", r.usage.toJson), ("warning", r.warning.toJson)]

/-- Load a repair from a text. -/
def load (text : String) : Except Json.ReadError Repair := Reader.readText reader text

end Repair

end ImportRepair
