import ImportRepair.Proofs.PlainDocuments
import ImportRepair.Settings

/-!
# The settings that a document gives

A document gives settings just when its sections and what they set can be read
(`Settings.parse_eq_ok_iff`). A run is strict by a document whose section `check` sets `strict` to
true (`Settings.strict_iff_of_parse`), and it reports in the format that its section `output` names,
or as plain text if there is none (`Settings.format_iff_of_parse`).
-/

namespace ImportRepair

namespace Toml

/-- What a section sets under its only key. A section that is an array begins with the value, and a
date sets nothing. -/
inductive Sets (key : String) : Toml → Option Toml → Prop
  | table {entries : List (String × Toml)}
      (readable : ∀ e ∈ entries, e.1 = key ∨ e.2.isReadable = true) :
      Sets key (.table entries) (entries.lookup key)
  | array {items : List Toml} : Sets key (.array items) items.head?
  | datetime : Sets key .datetime none

/-- What a document with some entries says under the key of a section, if it says anything. -/
inductive Says (entries : List (String × Toml)) (name key : String) : Option Toml → Prop
  | absent (h : entries.lookup name = none) : Says entries name key none
  | under {v : Toml} {w : Option Toml} (h : entries.lookup name = some v) (sets : Sets key v w) :
      Says entries name key w

/-- How a format is named. -/
inductive Names (f : ReportFormat) : Toml → Prop
  | word : Names f (.string f.name)
  | table : Names f (.table [(f.name, .table [])])
  | array : Names f (.table [(f.name, .array [])])

variable {entries : List (String × Toml)} {name key : String} {v : Toml} {w w' : Option Toml}

theorem setting?_eq_some_iff : v.setting? [key] key = some w ↔ Sets key v w := by
  have hhead : ∀ items : List Toml, items[[key].idxOf key]? = items.head? := by
    intro items
    rw [List.idxOf_cons_self, List.head?_eq_getElem?]
  constructor
  · intro h
    cases v with
    | table entries =>
        obtain ⟨hreadable, hlookup⟩ := Option.ite_none_right_eq_some.mp h
        rw [← Option.some.inj hlookup]
        exact .table (by simpa using hreadable)
    | array items =>
        rw [setting?, hhead] at h
        rw [← Option.some.inj h]
        exact .array
    | datetime =>
        cases h
        exact .datetime
    | string | integer | float | unreadable | boolean => cases h
  · rintro (hreadable | _ | _)
    · exact Option.ite_none_right_eq_some.mpr ⟨by simpa using hreadable, rfl⟩
    · rw [setting?, hhead]
    · rfl

theorem Sets.unique (h : Sets key v w) (h' : Sets key v w') : w = w' := by
  cases h <;> cases h' <;> rfl

theorem sets_table_iff (readable : ∀ e ∈ entries, e.1 = key ∨ e.2.isReadable = true) :
    Sets key (.table entries) w ↔ entries.lookup key = w := by
  constructor
  · exact (Sets.table readable).unique
  · rintro rfl
    exact .table readable

/-- A document says one thing under a key. -/
theorem Says.unique (h : Says entries name key w) (h' : Says entries name key w') : w = w' := by
  cases h with
  | absent h =>
      cases h' with
      | absent => rfl
      | under h₁ => rw [h] at h₁; cases h₁
  | under h sets =>
      cases h' with
      | absent h₁ => rw [h] at h₁; cases h₁
      | under h₁ sets₁ =>
          rw [h] at h₁
          cases h₁
          exact sets.unique sets₁

theorem format?_eq_some_iff {f : ReportFormat} : v.format? = some f ↔ Names f v := by
  constructor
  · intro h
    rw [format?.eq_def] at h
    split at h
    · cases ReportFormat.ofName?_eq_some_iff.mp h
      exact .word
    · cases ReportFormat.ofName?_eq_some_iff.mp h
      exact .table
    · cases ReportFormat.ofName?_eq_some_iff.mp h
      exact .array
    · cases h
  · rintro (_ | _ | _) <;> exact ReportFormat.ofName?_eq_some_iff.mpr rfl

theorem boolean?_eq_some_iff {b : Bool} : v.boolean? = some b ↔ v = .boolean b := by
  cases v <;> simp [boolean?]

/-- The values of a document are in a table. -/
theorem exists_entries_of_parse {text : String} (h : parse text = some v) :
    ∃ entries, v = .table entries := by
  obtain ⟨d, -, rfl⟩ := Option.map_eq_some_iff.mp h
  exact ⟨_, rfl⟩

end Toml

namespace Settings

open Toml

variable {text : String} {entries : List (String × Toml)} {s : Settings}

theorem orDefault_eq_some_iff {α : Type} {absent x : α} {read : Toml → Option α}
    {w : Option Toml} : orDefault absent read w = some x ↔
      (w = none ∧ x = absent) ∨ ∃ v, w = some v ∧ read v = some x := by
  cases w <;> simp [orDefault, eq_comm]

/-- What a section gives is read off what it says under its key. -/
theorem section_eq_some_iff {α : Type} {absent x : α} {read : Toml → Option α}
    {name key : String} :
    orDefault absent (fun v => (v.setting? [key] key).bind (orDefault absent read))
      (entries.lookup name) = some x ↔
        ∃ w, Says entries name key w ∧ orDefault absent read w = some x := by
  rw [orDefault_eq_some_iff]
  constructor
  · rintro (⟨h, rfl⟩ | ⟨v, h, hread⟩)
    · exact ⟨none, .absent h, rfl⟩
    · obtain ⟨w, hw, hx⟩ := Option.bind_eq_some_iff.mp hread
      exact ⟨w, .under h (setting?_eq_some_iff.mp hw), hx⟩
  · rintro ⟨w, h | ⟨h, sets⟩, hx⟩
    · exact Or.inl ⟨h, (Option.some.inj hx).symm⟩
    · exact Or.inr ⟨_, h, Option.bind_eq_some_iff.mpr ⟨w, setting?_eq_some_iff.mpr sets, hx⟩⟩

theorem ofToml_eq_some_iff : ofToml (.table entries) = some s ↔
    (∀ e ∈ entries, e.1 ∈ sections ∨ e.2.isReadable = true) ∧
      (∃ w, Says entries "output" "format" w ∧ orDefault .text format? w = some s.format) ∧
      ∃ w, Says entries "check" "strict" w ∧ orDefault false boolean? w = some s.strict := by
  have hall : (entries.all fun e => sections.contains e.1 || e.2.isReadable) = true ↔
      ∀ e ∈ entries, e.1 ∈ sections ∨ e.2.isReadable = true := by
    simp only [List.all_eq_true, Bool.or_eq_true, List.contains_iff_mem]
  rw [← section_eq_some_iff, ← section_eq_some_iff, ← hall, ofToml]
  by_cases hreadable : (entries.all fun e => sections.contains e.1 || e.2.isReadable) = true
  · have hsetting : ∀ name, setting? sections name (.table entries) =
        some (entries.lookup name) := fun name => if_pos hreadable
    simp only [hsetting, hreadable, Option.bind_eq_bind, Option.bind_some, true_and,
      Option.bind_eq_some_iff]
    constructor
    · rintro ⟨format, hformat, strict, hstrict, hs⟩
      cases hs
      exact ⟨hformat, hstrict⟩
    · rintro ⟨hformat, hstrict⟩
      exact ⟨_, hformat, _, hstrict, rfl⟩
  · have hsetting : ∀ name, setting? sections name (.table entries) = none :=
      fun name => if_neg hreadable
    simp only [hsetting, hreadable, Option.bind_eq_bind, Option.bind_none, reduceCtorEq,
      false_and]

/-- The settings of a text are those of its document, in which nothing has to be left out and whose
sections have to be ones. -/
theorem parse_eq_ok_iff : parse text = .ok s ↔
    ∃ entries, Toml.parse text = some (.table entries) ∧
      (∀ e ∈ entries, e.1 ∈ sections ∨ e.2.isReadable = true) ∧
      (∃ w, Says entries "output" "format" w ∧ orDefault .text format? w = some s.format) ∧
      ∃ w, Says entries "check" "strict" w ∧ orDefault false boolean? w = some s.strict := by
  simp only [← ofToml_eq_some_iff]
  rw [parse]
  constructor
  · intro h
    split at h
    · rename_i s' hs
      cases h
      obtain ⟨document, hdocument, hs⟩ := Option.bind_eq_some_iff.mp hs
      obtain ⟨entries, rfl⟩ := exists_entries_of_parse hdocument
      exact ⟨entries, hdocument, hs⟩
    · cases h
  · rintro ⟨entries, hdocument, hs⟩
    rw [hdocument, Option.bind_some, hs]

/-- The text of a settings file says something under the key of a section. -/
def TextSays (text name key : String) (v : Toml) : Prop :=
  ∃ entries, Toml.parse text = some (.table entries) ∧ Says entries name key (some v)

theorem textSays_iff {name key : String} {v : Toml} {w : Option Toml}
    (hdocument : Toml.parse text = some (.table entries)) (hw : Says entries name key w) :
    TextSays text name key v ↔ w = some v := by
  constructor
  · rintro ⟨entries', hdocument', hsays⟩
    rw [hdocument] at hdocument'
    cases hdocument'
    exact hw.unique hsays
  · rintro rfl
    exact ⟨entries, hdocument, hw⟩

/-- A settings file asks for strictness just when it says so. -/
theorem strict_iff_of_parse (h : parse text = .ok s) :
    s.strict = true ↔ TextSays text "check" "strict" (.boolean true) := by
  obtain ⟨entries, hdocument, -, -, w, hw, hread⟩ := parse_eq_ok_iff.mp h
  rw [textSays_iff hdocument hw]
  rcases orDefault_eq_some_iff.mp hread with ⟨rfl, hs⟩ | ⟨v, rfl, hs⟩
  · simp [hs]
  · simp [boolean?_eq_some_iff.mp hs]

/-- A settings file that names a format asks for that one, and any other for plain text. -/
theorem format_iff_of_parse {f : ReportFormat} (h : parse text = .ok s) :
    s.format = f ↔ (∃ v, TextSays text "output" "format" v ∧ Names f v) ∨
      f = .text ∧ ∀ v, ¬TextSays text "output" "format" v := by
  obtain ⟨entries, hdocument, -, ⟨w, hw, hread⟩, -⟩ := parse_eq_ok_iff.mp h
  simp only [textSays_iff hdocument hw, ← format?_eq_some_iff]
  rcases orDefault_eq_some_iff.mp hread with ⟨rfl, hs⟩ | ⟨v, rfl, hs⟩
  · simp [hs, eq_comm]
  · simp [hs]

/-- Where no two keys are the same, the value that is looked up is the one that stands there. -/
theorem lookup_eq_some_iff_mem {l : List (String × Toml)} {key : String} {v : Toml}
    (h : (l.map Prod.fst).Nodup) : l.lookup key = some v ↔ (key, v) ∈ l := by
  induction l with
  | nil => simp
  | cons e l ih =>
      obtain ⟨hkey, hl⟩ := List.nodup_cons.mp h
      rw [List.lookup_cons, List.mem_cons]
      by_cases he : key = e.1
      · subst he
        have hnot : (e.1, v) ∉ l := fun hmem => hkey (List.mem_map.mpr ⟨_, hmem, rfl⟩)
        simp [hnot, Prod.ext_iff, eq_comm]
      · have hne : (key, v) ≠ e := fun heq => he (congrArg Prod.fst heq)
        rw [beq_eq_false_iff_ne.mpr he]
        simp only [ih hl, hne, false_or]

theorem isReadable_of_writes {v : Toml} {t : String} (h : Writes v t) : v.isReadable = true := by
  cases h <;> rfl

/-- A plain section sets the values that stand in it. -/
theorem sets_section_iff {t : Section} {key : String} {v : Toml} (h : t.IsPlainSection) :
    Sets key t.table (some v) ↔ ∃ e ∈ t.settings, e.key = key ∧ e.value = v := by
  have hreadable : ∀ e ∈ t.settings.map fun e => (e.key, e.value),
      e.1 = key ∨ e.2.isReadable = true := by
    intro e he
    obtain ⟨setting, hsetting, rfl⟩ := List.mem_map.mp he
    exact Or.inr (isReadable_of_writes (h.settings setting hsetting).2)
  have hkeys : ((t.settings.map fun e => (e.key, e.value)).map Prod.fst).Nodup := by
    simpa [Function.comp_def] using h.keys
  rw [Section.table, sets_table_iff hreadable, lookup_eq_some_iff_mem hkeys]
  simp

/-- A plain document says what its sections set. -/
theorem textSays_documentText_iff {sections : List Section} {name key : String} {v : Toml}
    (hnames : (sections.map Section.name).Nodup) (h : ∀ t ∈ sections, t.IsPlainSection) :
    TextSays (Line.documentText (sections.flatMap Section.lines)) name key v ↔
      ∃ t ∈ sections, t.name = name ∧ ∃ e ∈ t.settings, e.key = key ∧ e.value = v := by
  have hdocument := Section.parse_documentText hnames h
  have hlookup : ∀ u, (sections.map fun t => (t.name, t.table)).lookup name = some u ↔
      ∃ t ∈ sections, t.name = name ∧ t.table = u := by
    intro u
    rw [lookup_eq_some_iff_mem (by simpa [Function.comp_def] using hnames)]
    simp
  constructor
  · rintro ⟨entries, hentries, hsays⟩
    rw [hdocument] at hentries
    cases hentries
    cases hsays with
    | under hunder sets =>
        obtain ⟨t, ht, hname, rfl⟩ := (hlookup _).mp hunder
        exact ⟨t, ht, hname, (sets_section_iff (h t ht)).mp sets⟩
  · rintro ⟨t, ht, hname, he⟩
    exact ⟨_, hdocument, .under ((hlookup _).mpr ⟨t, ht, hname, rfl⟩)
      ((sets_section_iff (h t ht)).mpr he)⟩

/-- The sections of a file for certain settings. -/
def document (s : Settings) : List Section :=
  [⟨"output", [⟨"format", .string s.format.name, "\"" ++ s.format.name ++ "\""⟩]⟩,
    ⟨"check", [⟨"strict", .boolean s.strict, if s.strict then "true" else "false"⟩]⟩]

end Settings

end ImportRepair
