import ImportRepair.Repair.Json

/-!
# Reports of repairs

What a user reads about a repair: plain text, markdown or JSON. When there is no repair a report
says so.
-/

namespace ImportRepair

/-- The formats of a report. -/
inductive ReportFormat
  | text
  | markdown
  | json
  deriving DecidableEq, Repr

/-- The words for the formats. -/
def ReportFormat.names : List (String × ReportFormat) :=
  [("text", .text), ("md", .markdown), ("json", .json)]

/-- The word for a format. -/
def ReportFormat.name : ReportFormat → String
  | .text => "text"
  | .markdown => "md"
  | .json => "json"

/-- The format that a word stands for. -/
def ReportFormat.ofName? (name : String) : Option ReportFormat := ReportFormat.names.lookup name

/-- A format is found by its word alone. -/
theorem ReportFormat.ofName?_eq_some_iff {name : String} {f : ReportFormat} :
    ofName? name = some f ↔ name = f.name := by
  constructor
  · intro h
    obtain ⟨l₁, l₂, hsplit, -⟩ := List.lookup_eq_some_iff.mp h
    have hmem : (name, f) ∈ names := by
      rw [hsplit]
      simp
    simp only [names, List.mem_cons, Prod.mk.injEq, List.not_mem_nil, or_false] at hmem
    rcases hmem with ⟨rfl, rfl⟩ | ⟨rfl, rfl⟩ | ⟨rfl, rfl⟩ <;> rfl
  · rintro rfl
    cases f <;> decide

namespace FileEdits

/-- The lines for a file in a plain text: a blank line, the path, and the commands indented. -/
def textSection (f : FileEdits) : String :=
  "\n" ++ f.path.text ++ ":\n" ++ String.join (f.commands.map fun c => "  " ++ c.text ++ "\n")

/-- The section for a file in markdown: the path as a heading over a block of commands. -/
def markdownSection (f : FileEdits) : String :=
  "### `" ++ f.path.text ++ "`\n\n```text\n" ++
    String.join (f.commands.map fun c => c.text ++ "\n") ++ "```\n\n"

end FileEdits

namespace Repair

/-- The report as plain text: the warning, then the commands file by file. -/
def text (r : Repair) : String :=
  r.warning.severity.text ++ ": " ++ r.warning.location.text ++ ": " ++ r.warning.message ++ "\n" ++
    String.join (r.commands.files.map FileEdits.textSection)

/-- The lists of commands in markdown. -/
def markdownCommands (plan : EditPlan) : String :=
  if plan.isEmpty then "_No commands._\n"
  else String.join (plan.files.map FileEdits.markdownSection)

/-- The report as markdown: a summary, the warning, then the commands file by file. -/
def markdown (r : Repair) : String :=
  "# usefix fixup\n\n" ++
    "- Extension: `" ++ r.usage.extensionName ++ "` from `" ++ r.usage.bzlFile ++ "`\n" ++
    "- Proxies: " ++ toString r.usage.proxies.length ++ "\n" ++
    "- Files touched: " ++ toString r.commands.files.length ++ "\n" ++
    "- Commands: " ++ toString r.commands.size ++ "\n\n" ++
    "## Warning\n\n- Location: `" ++ r.warning.location.text ++ "`\n\n```text\n" ++
    r.warning.message ++ "\n```\n\n## Commands\n\n" ++ markdownCommands r.commands

/-- The report as JSON. -/
def jsonText (r : Repair) : String := r.toJson.prettyText ++ "\n"

/-- The report in a format. -/
def report (r : Repair) : ReportFormat → String
  | .text => r.text
  | .markdown => r.markdown
  | .json => r.jsonText

end Repair

/-- The report when nothing has to change. -/
def noRepairText : String :=
  "usefix: use_repo imports already match the extension's declared dependencies\n"

/-- The report on a repair, or on there being none. -/
def report (format : ReportFormat) : Option Repair → String
  | some r => r.report format
  | none =>
    match format with
    | .json => "null\n"
    | .text => noRepairText
    | .markdown => noRepairText

end ImportRepair
