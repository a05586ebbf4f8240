import ImportRepair.Proofs.CheckRuns
import ImportRepair.Proofs.GivenArguments
import ImportRepair.Proofs.SettingsDocument

/-!
# Settings in effect

A check takes its settings from the file that its arguments name, or from the default file if there
is one (`settingsFor_eq_ok_iff`). A `GivenRun` is a run told by the list of its arguments and the
text of that file. It is strict just when the flag or the file asks for that
(`GivenRun.strict_settings_iff`), and it reports in the format of the option, or that of the file,
or as plain text (`GivenRun.format_settings_iff`).
-/

namespace ImportRepair.CommandLine

variable {σ : Type} {files : FileAccess (StateM σ)} {arguments : List String} {a : CheckArguments}
variable {s : Settings} {w w' : σ}

/-- The text of the settings file, if there is one, and how it is read from one state to the next:
it is that of the file that the arguments name, and without such a name that of the default file. -/
inductive ConfigText (files : FileAccess (StateM σ)) (arguments : List String) :
    σ → Option String → σ → Prop
  | named {path text : String} {w w' : σ} (asked : Grammar.Asks arguments "config" path)
      (read : (files.read path).run w = (some text, w')) :
      ConfigText files arguments w (some text) w'
  | default {text : String} {w w₁ w' : σ} (unasked : ∀ path, ¬Grammar.Asks arguments "config" path)
      (found : (files.exists? defaultConfig).run w = (true, w₁))
      (read : (files.read defaultConfig).run w₁ = (some text, w')) :
      ConfigText files arguments w (some text) w'
  | absent {w w' : σ} (unasked : ∀ path, ¬Grammar.Asks arguments "config" path)
      (missing : (files.exists? defaultConfig).run w = (false, w')) :
      ConfigText files arguments w none w'

/-- The settings that the text of a file gives, or that hold without one. -/
inductive Loaded : Option String → Settings → Prop
  | file {text : String} {s : Settings} (parsed : Settings.parse text = .ok s) :
      Loaded (some text) s
  | default : Loaded none {}

theorem loadSettings_eq_ok_iff {path : String} :
    (loadSettings files path).run w = (.ok s, w') ↔
      ∃ text, (files.read path).run w = (some text, w') ∧ Settings.parse text = .ok s := by
  rw [loadSettings]
  constructor
  · intro h
    rcases hread : (files.read path).run w with ⟨_ | text, w₁⟩
    · rw [run_bind_of_eq hread] at h
      cases h
    · rw [run_bind_of_eq hread] at h
      dsimp only at h
      split at h
      · rename_i hparse
        cases h
        exact ⟨text, rfl, hparse⟩
      · cases h
  · rintro ⟨text, hread, hparse⟩
    rw [run_bind_of_eq hread]
    dsimp only
    rw [hparse]
    rfl

theorem unasked_config_iff (h : parse ("check" :: arguments) = .ok (.check a)) :
    (∀ path, ¬Grammar.Asks arguments "config" path) ↔ a.config = none := by
  simp only [CheckArguments.asks_config_iff_of_parse h, Option.eq_none_iff_forall_ne_some]

theorem settingsFor_of_configText {config : Option String}
    (h : parse ("check" :: arguments) = .ok (.check a))
    (hread : ConfigText files arguments w config w') (hloaded : Loaded config s) :
    (settingsFor files a).run w = (.ok s, w') := by
  rw [settingsFor]
  cases hread with
  | named asked read =>
      cases hloaded with
      | file parsed =>
          rw [(CheckArguments.asks_config_iff_of_parse h).mp asked]
          exact loadSettings_eq_ok_iff.mpr ⟨_, read, parsed⟩
  | default unasked found read =>
      cases hloaded with
      | file parsed =>
          rw [(unasked_config_iff h).mp unasked]
          dsimp only
          rw [run_bind_of_eq found]
          exact loadSettings_eq_ok_iff.mpr ⟨_, read, parsed⟩
  | absent unasked missing =>
      cases hloaded with
      | default =>
          rw [(unasked_config_iff h).mp unasked]
          dsimp only
          rw [run_bind_of_eq missing]
          rfl

theorem exists_configText_of_settingsFor (h : parse ("check" :: arguments) = .ok (.check a))
    (hrun : (settingsFor files a).run w = (.ok s, w')) :
    ∃ config, ConfigText files arguments w config w' ∧ Loaded config s := by
  rw [settingsFor] at hrun
  cases hconfig : a.config with
  | some path =>
      rw [hconfig] at hrun
      obtain ⟨text, hread, hparse⟩ := loadSettings_eq_ok_iff.mp hrun
      exact ⟨_, .named ((CheckArguments.asks_config_iff_of_parse h).mpr hconfig) hread,
        .file hparse⟩
  | none =>
      have hunasked := (unasked_config_iff h).mpr hconfig
      rw [hconfig] at hrun
      dsimp only at hrun
      rcases hfound : (files.exists? defaultConfig).run w with ⟨_ | _, w₁⟩
      · rw [run_bind_of_eq hfound] at hrun
        cases hrun
        exact ⟨none, .absent hunasked hfound, .default⟩
      · rw [run_bind_of_eq hfound] at hrun
        obtain ⟨text, hread, hparse⟩ := loadSettings_eq_ok_iff.mp hrun
        exact ⟨_, .default hunasked hfound hread, .file hparse⟩

/-- Settings are found just when the settings file is read and gives them. -/
theorem settingsFor_eq_ok_iff (h : parse ("check" :: arguments) = .ok (.check a)) :
    (settingsFor files a).run w = (.ok s, w') ↔
      ∃ config, ConfigText files arguments w config w' ∧ Loaded config s := by
  constructor
  · exact exists_configText_of_settingsFor h
  · rintro ⟨config, hread, hloaded⟩
    exact settingsFor_of_configText h hread hloaded

theorem strict_iff_of_loaded {config : Option String} (h : Loaded config s) :
    s.strict = true ↔
      ∃ text, config = some text ∧ Settings.TextSays text "check" "strict" (.boolean true) := by
  cases h with
  | file parsed => simp [Settings.strict_iff_of_parse parsed]
  | default => simp

theorem format_iff_of_loaded {config : Option String} {f : ReportFormat} (h : Loaded config s) :
    s.format = f ↔
      (∃ text, config = some text ∧
        ∃ v, Settings.TextSays text "output" "format" v ∧ Toml.Names f v) ∨
      f = .text ∧
        ∀ text, config = some text → ∀ v, ¬Settings.TextSays text "output" "format" v := by
  cases h with
  | file parsed =>
      rw [Settings.format_iff_of_parse parsed]
      simp only [Option.some.injEq, exists_eq_left', forall_eq']
  | default => simp [eq_comm]

/-- A check with a list of arguments in a state, where the settings file and the evaluation can be
read and the report can be written. -/
structure GivenRun (σ : Type) where
  files : FileAccess (StateM σ)
  given : List String
  arguments : CheckArguments
  accepted : parse ("check" :: given) = .ok (.check arguments)
  /-- The state before the run. -/
  before : σ
  /-- The text of the settings file, if there is one. -/
  config : Option String
  /-- The settings that it gives. -/
  loaded : Settings
  loads : Loaded config loaded
  /-- The text of the evaluation. -/
  text : String
  /-- The state once everything was read. -/
  read : σ
  reads : ∃ w, ConfigText files given before config w ∧
    (files.read arguments.evaluation).run w = (some text, read)
  writes : ∀ path, Grammar.Asks given "out" path →
    ∀ report, ((files.write path report).run read).1 = true

namespace GivenRun

variable {c : GivenRun σ} {f : ReportFormat}

/-- The run is given an option with a value. -/
def Asks (c : GivenRun σ) (name value : String) : Prop := Grammar.Asks c.given name value

/-- Strictness is in effect: the flag is given, or the settings file asks for it. -/
def Strict (c : GivenRun σ) : Prop :=
  "--strict" ∈ Grammar.front c.given ∨
    ∃ text, c.config = some text ∧ Settings.TextSays text "check" "strict" (.boolean true)

/-- The format in effect is that of the option, else that of the settings file, else plain text. -/
inductive Reports (c : GivenRun σ) (f : ReportFormat) : Prop
  | asked (asked : c.Asks "format" f.name)
  | named {text : String} {v : Toml} (unasked : ∀ value, ¬c.Asks "format" value)
      (config : c.config = some text) (spoken : Settings.TextSays text "output" "format" v)
      (names : Toml.Names f v)
  | plain (unasked : ∀ value, ¬c.Asks "format" value)
      (silent : ∀ text, c.config = some text → ∀ v, ¬Settings.TextSays text "output" "format" v)
      (eq : f = .text)

theorem asks_out_iff {path : String} : c.Asks "out" path ↔ c.arguments.out = some path :=
  CheckArguments.asks_out_iff_of_parse c.accepted

theorem asks_format_iff {value : String} :
    c.Asks "format" value ↔ c.arguments.format.map ReportFormat.name = some value :=
  CheckArguments.asks_format_iff_of_parse c.accepted

/-- The run of the check that the arguments ask for. -/
def checkRun (c : GivenRun σ) : CheckRun σ where
  files := c.files
  arguments := c.arguments
  before := c.before
  loaded := c.loaded
  text := c.text
  read := c.read
  reads := by
    obtain ⟨w, hconfig, htext⟩ := c.reads
    exact ⟨w, (settingsFor_eq_ok_iff c.accepted).mpr ⟨c.config, hconfig, c.loads⟩, htext⟩
  writes := fun path hout => c.writes path (asks_out_iff.mpr hout)

/-- Every run of a check can be asked for. -/
theorem exists_checkRun_eq (c : CheckRun σ) : ∃ g : GivenRun σ, g.checkRun = c := by
  have haccepted := CheckArguments.parse_spelling c.arguments
  obtain ⟨w, hsettings, htext⟩ := c.reads
  obtain ⟨config, hconfig, hloads⟩ := (settingsFor_eq_ok_iff haccepted).mp hsettings
  exact ⟨{
    files := c.files
    given := c.arguments.spelling
    arguments := c.arguments
    accepted := haccepted
    before := c.before
    config := config
    loaded := c.loaded
    loads := hloads
    text := c.text
    read := c.read
    reads := ⟨w, hconfig, htext⟩
    writes := fun path hpath =>
      c.writes path ((CheckArguments.asks_out_iff_of_parse haccepted).mp hpath) }, rfl⟩

/-- The run is strict just when strictness is in effect. -/
theorem strict_settings_iff : c.checkRun.settings.strict = true ↔ c.Strict := by
  rw [Strict, ← CheckArguments.strict_iff_of_parse c.accepted, ← strict_iff_of_loaded c.loads]
  exact Bool.or_eq_true_iff

/-- The run reports just in the format in effect. -/
theorem format_settings_iff : c.checkRun.settings.format = f ↔ c.Reports f := by
  have hsettings : c.checkRun.settings.format = c.arguments.format.getD c.loaded.format := rfl
  rw [hsettings]
  cases hformat : c.arguments.format with
  | some f' =>
      have hasks : ∀ value, c.Asks "format" value ↔ f'.name = value := by
        simp [asks_format_iff, hformat]
      constructor
      · rintro rfl
        exact .asked ((hasks _).mpr rfl)
      · intro h
        cases h with
        | asked asked =>
            have hname : ReportFormat.ofName? f.name = some f' :=
              ReportFormat.ofName?_eq_some_iff.mpr ((hasks _).mp asked).symm
            exact Option.some.inj (hname.symm.trans (ReportFormat.ofName?_eq_some_iff.mpr rfl))
        | named unasked | plain unasked => exact absurd ((hasks _).mpr rfl) (unasked _)
  | none =>
      have hunasked : ∀ value, ¬c.Asks "format" value := by
        simp [asks_format_iff, hformat]
      rw [Option.getD_none, format_iff_of_loaded c.loads]
      constructor
      · rintro (⟨text, hconfig, v, hsays, hnames⟩ | ⟨heq, hsilent⟩)
        · exact .named hunasked hconfig hsays hnames
        · exact .plain hunasked hsilent heq
      · intro h
        cases h with
        | asked asked => exact absurd asked (hunasked _)
        | named _ config spoken names => exact Or.inl ⟨_, config, _, spoken, names⟩
        | plain _ silent eq => exact Or.inr ⟨eq, silent⟩

end GivenRun

end ImportRepair.CommandLine
