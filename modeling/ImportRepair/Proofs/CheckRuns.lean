import ImportRepair.CommandLine.Run

/-!
# Runs of a check

What a run of `check` answers and writes. It comes to its verdict on the text of the evaluation and
to writing the report (`CheckRun.run_eq`), so runs that make the same repair and report it in the
same way differ in the exit code at most (`CheckRun.outcome_eq_of_repairOfText`).

## Implementation notes

Files are read and written in an arbitrary state. A `CheckRun` is a run in which everything that has
to be read can be read and the report can be written, so what it comes to depends on the text of the
evaluation and on the settings.
-/

namespace ImportRepair.CommandLine

theorem run_bind_of_eq {σ α β : Type} {x : StateM σ α} {f : α → StateM σ β} {w w' : σ} {a : α}
    (h : x.run w = (a, w')) : (x >>= f).run w = (f a).run w' := by
  rw [StateT.run_bind, h]
  rfl

namespace FileTree

variable {t : FileTree} {path text : String} {place : List String}

theorem run_read (hplace : t.locate path = some place) (htext : t.text? place = some text) :
    (access.read path).run t = (some text, t) := by
  have hread : t.read path = some text := by
    rw [read, hplace, Option.bind_some, htext]
  rw [← hread]
  rfl

theorem run_exists? (hplace : t.locate path = some place) :
    (access.exists? path).run t = (t.isDirectory place || (t.text? place).isSome, t) := by
  have hhas : t.has path = (t.isDirectory place || (t.text? place).isSome) := by
    rw [has, hplace]
  rw [← hhas]
  rfl

/-- A name directly under the directory of the tree. -/
theorem follow_name {name : String} (h : name ∉ ["", ".", ".."]) :
    t.follow [] [name] = some [name] := by
  simp only [List.mem_cons, List.not_mem_nil, or_false, not_or] at h
  simp [follow, isDirectory, h]

theorem locate_evaluation (t : FileTree) : t.locate "eval.json" = some ["eval.json"] := by
  have hpath : isPath "eval.json" = true := by decide +kernel
  have hnames : pathNames "eval.json" = ["eval.json"] := by decide +kernel
  rw [locate, if_pos hpath, hnames, follow_name (by decide)]

theorem locate_defaultConfig (t : FileTree) :
    t.locate defaultConfig = some ["usefix.toml"] := by
  have hpath : isPath defaultConfig = true := by decide +kernel
  have hnames : pathNames defaultConfig = [".", "usefix.toml"] := by decide +kernel
  have hdot : t.follow [] [".", "usefix.toml"] = t.follow [] ["usefix.toml"] := by
    simp [follow, isDirectory]
  rw [locate, if_pos hpath, hnames, hdot, follow_name (by decide)]

theorem ofList_evaluation : ofList [("eval.json", text)] = ⟨[(["eval.json"], text)]⟩ := by
  have hnames : pathNames "eval.json" = ["eval.json"] := by decide +kernel
  simp [ofList, hnames]

end FileTree

/-- A check of the arguments in a state, where the settings and the evaluation can be read and the
report can be written. -/
structure CheckRun (σ : Type) where
  files : FileAccess (StateM σ)
  arguments : CheckArguments
  /-- The state before the run. -/
  before : σ
  /-- The settings of the file that is named, or of the default one. -/
  loaded : Settings
  /-- The text of the evaluation. -/
  text : String
  /-- The state once everything was read. -/
  read : σ
  reads : ∃ w, (settingsFor files arguments).run before = (.ok loaded, w) ∧
    (files.read arguments.evaluation).run w = (some text, read)
  writes : ∀ path ∈ arguments.out, ∀ report, ((files.write path report).run read).1 = true

namespace CheckRun

variable {σ τ : Type} {c : CheckRun σ} {c' : CheckRun τ}

/-- The settings in effect. -/
def settings (c : CheckRun σ) : Settings :=
  c.loaded.override c.arguments.format c.arguments.strict

/-- The answer of the program. -/
def outcome (c : CheckRun σ) : Outcome := ((run c.files (.check c.arguments)).run c.before).1

/-- The state after the run. -/
def after (c : CheckRun σ) : σ := ((run c.files (.check c.arguments)).run c.before).2

/-- The state once a text was written where the report has to go, if it goes to a file. -/
def written (c : CheckRun σ) (report : String) : σ :=
  match c.arguments.out with
  | none => c.read
  | some path => ((c.files.write path report).run c.read).2

theorem written_of_none {report : String} (h : c.arguments.out = none) :
    c.written report = c.read := by
  rw [written, h]

theorem written_of_some {path report : String} (h : c.arguments.out = some path) :
    c.written report = ((c.files.write path report).run c.read).2 := by
  rw [written, h]

/-- Two runs leave the files as they are, or both write the same text where the report has to go. -/
def WritesAlike (c : CheckRun σ) (c' : CheckRun τ) : Prop :=
  (c.after = c.read ∧ c'.after = c'.read) ∨
    ∃ report, c.after = c.written report ∧ c'.after = c'.written report

/-- A run comes to its verdict, and to writing the report where it has to go to a file. -/
theorem run_eq (c : CheckRun σ) :
    (run c.files (.check c.arguments)).run c.before =
      match verdict c.settings c.arguments.evaluation c.text with
      | .error f => (.ofFailure f, c.read)
      | .ok (report, code) =>
        (⟨code, if c.arguments.out = none then report else "", ""⟩, c.written report) := by
  obtain ⟨w, hsettings, htext⟩ := c.reads
  rw [run, check, run_bind_of_eq hsettings]
  dsimp only
  rw [run_bind_of_eq htext]
  dsimp only [settings]
  cases verdict (c.loaded.override c.arguments.format c.arguments.strict) c.arguments.evaluation
      c.text with
  | error f => rfl
  | ok v =>
      cases hout : c.arguments.out with
      | none =>
          dsimp only
          rw [written_of_none hout, if_pos rfl]
          rfl
      | some path =>
          have hwrite : (c.files.write path v.1).run c.read =
              (true, ((c.files.write path v.1).run c.read).2) :=
            Prod.ext (c.writes path hout v.1) rfl
          dsimp only
          rw [run_bind_of_eq hwrite]
          rw [written_of_some hout, if_pos rfl, if_neg nofun]
          rfl

theorem run_of_error {f : Failure} (h : repairOfText c.arguments.evaluation c.text = .error f) :
    c.outcome = .ofFailure f ∧ c.after = c.read := by
  rw [outcome, after, run_eq, verdict, h]
  exact ⟨rfl, rfl⟩

theorem run_of_ok {x : Option Repair} (h : repairOfText c.arguments.evaluation c.text = .ok x) :
    c.outcome = ⟨if x.isSome && c.settings.strict then repairNeeded else 0,
        if c.arguments.out = none then report c.settings.format x else "", ""⟩ ∧
      c.after = c.written (report c.settings.format x) := by
  rw [outcome, after, run_eq, verdict, h]
  exact ⟨rfl, rfl⟩

theorem exit_eq (c : CheckRun σ) :
    c.outcome.exit = match repairOfText c.arguments.evaluation c.text with
      | .error _ => 1
      | .ok x => if x.isSome && c.settings.strict then 2 else 0 := by
  cases h : repairOfText c.arguments.evaluation c.text with
  | error f => rw [(run_of_error h).1, Outcome.ofFailure]
  | ok x => rw [(run_of_ok h).1, repairNeeded]

/-- Runs that make the same repair and report it in the same way differ in the exit code at most. -/
theorem outcome_eq_of_repairOfText
    (hrepair : repairOfText c.arguments.evaluation c.text =
      repairOfText c'.arguments.evaluation c'.text)
    (hout : c.arguments.out = c'.arguments.out) (hformat : c.settings.format = c'.settings.format) :
    c'.outcome = { c.outcome with exit := c'.outcome.exit } ∧ c.WritesAlike c' := by
  cases hr : repairOfText c.arguments.evaluation c.text with
  | error f =>
      obtain ⟨houtcome, hafter⟩ := run_of_error hr
      obtain ⟨houtcome', hafter'⟩ := run_of_error (hrepair ▸ hr)
      rw [houtcome, houtcome']
      exact ⟨rfl, Or.inl ⟨hafter, hafter'⟩⟩
  | ok x =>
      obtain ⟨houtcome, hafter⟩ := run_of_ok hr
      obtain ⟨houtcome', hafter'⟩ := run_of_ok (hrepair ▸ hr)
      rw [← hformat] at houtcome' hafter'
      rw [houtcome, houtcome', hout]
      exact ⟨rfl, Or.inr ⟨_, hafter, hafter'⟩⟩

/-- A check of an evaluation in a directory that holds nothing else. -/
def alone (text : String) (strict : Bool) : CheckRun FileTree where
  files := FileTree.access
  arguments := { evaluation := "eval.json", format := some .json, strict := strict }
  before := .ofList [("eval.json", text)]
  loaded := {}
  text := text
  read := .ofList [("eval.json", text)]
  reads := by
    rw [FileTree.ofList_evaluation]
    refine ⟨_, ?_, FileTree.run_read (FileTree.locate_evaluation _) rfl⟩
    rw [settingsFor, run_bind_of_eq (FileTree.run_exists? (FileTree.locate_defaultConfig _))]
    rfl
  writes := by simp

end CheckRun

end ImportRepair.CommandLine
