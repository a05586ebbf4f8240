import ImportRepair.Declaration.Expected
import ImportRepair.Reconciliation.Plan

/-!
# Repairs

A repair holds the commands that bring the imports of a usage in line with a declaration, and the
warning that tells the user why.
-/

namespace ImportRepair

/-- How serious a diagnostic is. -/
inductive Severity
  | info
  | warning
  | error
  deriving DecidableEq, Repr

/-- The word for a severity in a text. -/
def Severity.text : Severity → String
  | .info => "INFO"
  | .warning => "WARNING"
  | .error => "ERROR"

/-- A message about a place. -/
structure Diagnostic where
  severity : Severity
  location : Location
  message : String
  deriving DecidableEq, Repr

/-- The commands that repair a usage, and the warning that goes with them. -/
structure Repair where
  /-- The identifier of the document format. -/
  schema : String
  commands : EditPlan
  /-- The usage that the commands are for. -/
  usage : Usage
  warning : Diagnostic
  deriving DecidableEq

/-- The identifier of the format of repairs made here. -/
def Repair.currentSchema : String := "usefix.fixup.v1"

namespace Reconciliation

/-- The repair, unless nothing has to change. The warning is attached to the first proxy. -/
def repair? (r : Reconciliation) : Except RepairError (Option Repair) :=
  if r.diff.isEmpty then .ok none
  else do
    let commands ← r.diff.plan r.usage.proxies
    match r.usage.proxies.head? with
    | some first =>
      return some ⟨Repair.currentSchema, commands, r.usage, .warning, first.location, r.message⟩
    | none => .error .noProxies

end Reconciliation

namespace Declaration

/-- The repair that a declaration calls for. There is none when the declaration has no opinion or
the imports are as expected. -/
def repair? (d : Declaration) (usage : Usage) (generated : RepoSet) :
    Except RepairError (Option Repair) := do
  match ← d.expected generated with
  | none => return none
  | some expected => (← Reconciliation.make usage generated expected).repair?

end Declaration

end ImportRepair
