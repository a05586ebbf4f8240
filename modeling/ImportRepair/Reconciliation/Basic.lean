import ImportRepair.Reconciliation.Diff
import ImportRepair.Repair.Error
import ImportRepair.Usage.Basic

/-!
# Reconciliation of expected and actual imports

A reconciliation compares the imports that a declaration calls for with those of a usage. It tells
which imports to add and to remove, and sorts what differs into the groups that a user is told.

## Implementation notes

Differences are taken kind by kind. The groups of a report look at both kinds together, so that a
repository imported as the wrong kind is named once, and not as missing and superfluous.
-/

namespace ImportRepair

/-- The groups of a report, in the order in which they are reported. -/
inductive Mismatch
  /-- Imported and not generated. -/
  | invalid
  /-- Expected and not imported. -/
  | missing
  /-- Imported as regular and expected as dev. -/
  | regularImportOfDev
  /-- Imported as dev and expected as regular. -/
  | devImportOfRegular
  /-- Imported and generated, but not expected. -/
  | indirect
  deriving DecidableEq, Repr

namespace Mismatch

/-- All groups in the order of a report. -/
def all : List Mismatch :=
  [.invalid, .missing, .regularImportOfDev, .devImportOfRegular, .indirect]

/-- The line above the repositories of a group. -/
def heading : Mismatch → String
  | .invalid => "Imported, but not created by the extension (will cause the build to fail)"
  | .missing =>
    "Not imported, but reported as direct dependencies by the extension " ++
      "(may cause the build to fail)"
  | .regularImportOfDev =>
    "Imported as a regular dependency, but reported as a dev dependency by the extension " ++
      "(may cause the build to fail when used by other modules)"
  | .devImportOfRegular =>
    "Imported as a dev dependency, but reported as a regular dependency by the extension " ++
      "(may cause the build to fail when used by other modules)"
  | .indirect => "Imported, but reported as indirect dependencies by the extension"

end Mismatch

/-- The imports of a usage next to the imports that are expected of it. -/
structure Reconciliation where
  usage : Usage
  /-- The repositories that the extension generated. -/
  generated : RepoSet
  expected : PerKind RepoSet
  deriving DecidableEq

namespace Reconciliation

/-- Reconcile a usage, which needs a proxy of every kind of which imports are expected. -/
def make (usage : Usage) (generated : RepoSet) (expected : PerKind RepoSet) :
    Except RepairError Reconciliation :=
  if expected.regular ≠ ∅ ∧ usage.has .regular = false then .error (.unusedKind .regular)
  else if expected.dev ≠ ∅ ∧ usage.has .dev = false then .error (.unusedKind .dev)
  else .ok ⟨usage, generated, expected⟩

/-- The imports of the usage. -/
def actual (r : Reconciliation) : PerKind RepoSet := r.usage.imported

/-- What has to change. -/
def diff (r : Reconciliation) : ImportDiff := .between r.expected r.actual

/-- The repositories of a group. -/
def mismatch (r : Reconciliation) : Mismatch → RepoSet
  | .invalid => r.actual.either \ r.generated
  | .missing => r.expected.either \ r.actual.either
  | .regularImportOfDev => r.expected.dev ∩ r.actual.regular
  | .devImportOfRegular => r.expected.regular ∩ r.actual.dev
  | .indirect => (r.actual.either ∩ r.generated) \ r.expected.either

/-- The groups that have repositories, in the order of a report. -/
def mismatches (r : Reconciliation) : List (Mismatch × RepoSet) :=
  (Mismatch.all.map fun m => (m, r.mismatch m)).filter fun p => !p.2.isEmpty

/-- The command that applies a repair. -/
def tidyCommand : String := "bazel mod tidy"

/-- The paragraph for a group. -/
def paragraph (p : Mismatch × RepoSet) : String :=
  p.1.heading ++ ":\n    " ++ ", ".intercalate p.2.toList ++ "\n\n"

/-- The warning for the user. -/
def message (r : Reconciliation) : String :=
  "The module extension " ++ r.usage.extensionName ++ " defined in " ++ r.usage.bzlFile ++
    " reported incorrect imports of repositories via use_repo():\n\n" ++
    String.join (r.mismatches.map paragraph) ++
    "Fix the use_repo calls by running '" ++ tidyCommand ++ "'."

end Reconciliation

end ImportRepair
