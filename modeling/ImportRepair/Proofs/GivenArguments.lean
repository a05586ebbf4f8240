import ImportRepair.Proofs.ArgumentItems

/-!
# The arguments that a check is given

The arguments of a check are those that its list is written for (`parse_check_eq_ok_iff`), so each
choice of them can be asked for (`parse_spelling`). In a list that is accepted a flag or an option
is given just when it stands in front of the separator (`strict_iff_of_parse`,
`has_option_iff_of_parse`).
-/

namespace ImportRepair.CommandLine

namespace Grammar

variable {grammar : Grammar} {arguments : List String} {items : List Item}

/-- The items that a grammar knows. -/
def Knows (grammar : Grammar) : Item → Prop
  | .flag name => name ∈ grammar.flags
  | .option name value =>
    ∃ accepts, grammar.options.lookup name = some accepts ∧ accepts value = true
  | .operand _ => grammar.operand = true

theorem Spells.knows (h : grammar.Spells arguments items) : ∀ i ∈ items, grammar.Knows i := by
  induction h with
  | nil => simp
  | separator => simp
  | separated known => simpa [Knows] using known
  | flag known _ ih => exact List.forall_mem_cons.mpr ⟨known, ih⟩
  | joined known accepted _ ih => exact List.forall_mem_cons.mpr ⟨⟨_, known, accepted⟩, ih⟩
  | apart known accepted _ _ ih => exact List.forall_mem_cons.mpr ⟨⟨_, known, accepted⟩, ih⟩
  | operand known _ _ ih => exact List.forall_mem_cons.mpr ⟨known, ih⟩

/-- Options with their values joined to them may be put in front. -/
theorem Spells.joined_append {α : Type} {name : String} {accepts : String → Bool}
    {text : α → String} {values : List α} (known : grammar.options.lookup name = some accepts)
    (accepted : ∀ v ∈ values, accepts (text v) = true) (h : grammar.Spells arguments items) :
    grammar.Spells ((values.map fun v => "--" ++ (name ++ "=" ++ text v)) ++ arguments)
      ((values.map fun v => .option name (text v)) ++ items) := by
  induction values with
  | nil => exact h
  | cons v values ih =>
      obtain ⟨hv, hvalues⟩ := List.forall_mem_cons.mp accepted
      exact .joined known hv (ih hvalues)

/-- The arguments in front of the separator. -/
def front (arguments : List String) : List String := arguments.takeWhile (· ≠ "--")

/-- An option is given with a value in front of the separator, joined to it or after it. -/
def Asks (arguments : List String) (name value : String) : Prop :=
  "--" ++ (name ++ "=" ++ value) ∈ front arguments ∨ ["--" ++ name, value] <:+: front arguments

theorem front_cons {f : Form} {argument : String} (h : f.Writes argument) (hf : f ≠ .separator) :
    front (argument :: arguments) = argument :: front arguments := by
  have hne : argument ≠ "--" := by
    rw [ne_eq, eq_comm, Form.Writes.separator.eq_iff h nofun, eq_comm]
    exact hf
  rw [front, List.takeWhile_cons_of_pos (by simpa using hne), front]

/-- The flags that are given are the arguments of their names in front of the separator. -/
theorem Spells.flag_mem_iff {name : String} (hgrammar : grammar.WellFormed)
    (h : grammar.Spells arguments items) (hname : name ∈ grammar.flags) :
    .flag name ∈ items ↔ "--" ++ name ∈ front arguments := by
  obtain ⟨hne, heq, -⟩ := hgrammar.flags name hname
  have hlong : ∀ {f : Form} {argument}, f.Writes argument →
      ("--" ++ name = argument ↔ .long name none = f) :=
    fun h => (Form.Writes.long hne heq).eq_iff h nofun
  induction h with
  | nil | separator | separated => simp [front]
  | @flag name' _ _ known _ ih =>
      obtain ⟨hne', heq', -⟩ := hgrammar.flags name' known
      have hwrites : Form.Writes _ _ := .long hne' heq'
      simp only [front_cons hwrites nofun, List.mem_cons, hlong hwrites, ih,
        Item.flag.injEq, Form.long.injEq, and_true]
  | @joined name' value' _ _ _ known accepted _ ih =>
      obtain ⟨⟨-, heq', -⟩, -⟩ := hgrammar.options _ _ known
      have hwrites : (Form.long name' (some value')).Writes _ := .joined heq'
      simp only [front_cons hwrites nofun, List.mem_cons, hlong hwrites, ih, reduceCtorEq,
        Form.long.injEq, and_false]
  | @apart name' _ _ _ _ known accepted plain _ ih =>
      obtain ⟨⟨hne', heq', -⟩, hflag⟩ := hgrammar.options _ _ known
      have hwrites : Form.Writes _ _ := .long hne' heq'
      have hvalue := Form.Writes.word plain
      have hoption : name ≠ name' := by
        rintro rfl
        exact hflag hname
      simp only [front_cons hwrites nofun, front_cons hvalue nofun, List.mem_cons,
        hlong hwrites, hlong hvalue, ih, reduceCtorEq, Form.long.injEq, hoption,
        false_and, false_or]
  | operand known plain _ ih =>
      have hwrites := Form.Writes.word plain
      simp only [front_cons hwrites nofun, List.mem_cons, hlong hwrites, ih, reduceCtorEq]

/-- The options that are given are the arguments of their names in front of the separator, with
their values joined to them or after them. -/
theorem Spells.option_mem_iff {name value : String} {accepts : String → Bool}
    (hgrammar : grammar.WellFormed) (h : grammar.Spells arguments items)
    (hname : grammar.options.lookup name = some accepts) :
    .option name value ∈ items ↔ Asks arguments name value := by
  rw [Asks]
  obtain ⟨⟨hne, heq, -⟩, hflag⟩ := hgrammar.options _ _ hname
  have hlong : ∀ {f : Form} {argument}, f.Writes argument →
      ("--" ++ name = argument ↔ .long name none = f) :=
    fun h => (Form.Writes.long hne heq).eq_iff h nofun
  have hjoined : ∀ {f : Form} {argument}, f.Writes argument →
      ("--" ++ (name ++ "=" ++ value) = argument ↔ .long name (some value) = f) :=
    fun h => (Form.Writes.joined heq).eq_iff h nofun
  induction h with
  | nil | separator | separated => simp [front]
  | @flag name' _ _ known _ ih =>
      obtain ⟨hne', heq', -⟩ := hgrammar.flags name' known
      have hwrites : Form.Writes _ _ := .long hne' heq'
      have hoption : name ≠ name' := by
        rintro rfl
        exact hflag known
      simp only [front_cons hwrites nofun, List.mem_cons, List.infix_cons_iff,
        List.cons_prefix_cons, hlong hwrites, hjoined hwrites, ih, reduceCtorEq,
        Form.long.injEq, hoption, false_and, and_false, false_or]
  | @joined name' value' _ _ _ known accepted _ ih =>
      obtain ⟨⟨-, heq', -⟩, -⟩ := hgrammar.options _ _ known
      have hwrites : (Form.long name' (some value')).Writes _ := .joined heq'
      simp only [front_cons hwrites nofun, List.mem_cons, List.infix_cons_iff,
        List.cons_prefix_cons, hlong hwrites, hjoined hwrites, ih, reduceCtorEq,
        Form.long.injEq, Item.option.injEq, Option.some.injEq, false_and, and_false, false_or,
        or_assoc]
  | @apart name' value' _ _ _ known accepted plain _ ih =>
      obtain ⟨⟨hne', heq', -⟩, hflag⟩ := hgrammar.options _ _ known
      have hwrites : (Form.long name' none).Writes _ := .long hne' heq'
      have hvalue := Form.Writes.word plain
      simp only [front_cons hwrites nofun, front_cons hvalue nofun, List.mem_cons,
        List.infix_cons_iff, List.cons_prefix_cons, List.nil_prefix, hlong hwrites, hlong hvalue,
        hjoined hwrites, hjoined hvalue, ih, reduceCtorEq, Form.long.injEq, Item.option.injEq,
        false_and, false_or, and_true, and_false]
      exact or_left_comm
  | operand known plain _ ih =>
      have hwrites := Form.Writes.word plain
      simp only [front_cons hwrites nofun, List.mem_cons, List.infix_cons_iff,
        List.cons_prefix_cons, hlong hwrites, hjoined hwrites, ih, reduceCtorEq, false_and,
        false_or]

end Grammar

theorem Subcommand.wellFormed_grammar (s : Subcommand) : s.grammar.WellFormed := by
  have hoptions : ∀ name ∈ s.grammar.options.map Prod.fst,
      IsName name ∧ name ∉ s.grammar.flags := by
    cases s <;> decide
  constructor
  · cases s <;> decide
  · intro name accepts h
    apply hoptions
    obtain ⟨l₁, l₂, hsplit, -⟩ := List.lookup_eq_some_iff.mp h
    rw [hsplit]
    simp

namespace CheckArguments

variable {a : CheckArguments} {arguments : List String}

/-- The items that the arguments of a check are given by. -/
def Has (a : CheckArguments) : Item → Prop
  | .flag name => name = "strict" ∧ a.strict = true
  | .option name value =>
    (name = "format" ∧ a.format.map ReportFormat.name = some value) ∨
      (name = "out" ∧ a.out = some value) ∨ (name = "config" ∧ a.config = some value)
  | .operand text => text = a.evaluation

theorem knows_flag_iff {name : String} :
    Subcommand.check.grammar.Knows (.flag name) ↔ name = "strict" :=
  List.mem_singleton

theorem knows_option_iff {name value : String} :
    Subcommand.check.grammar.Knows (.option name value) ↔
      (name = "format" ∧ ∃ f, value = ReportFormat.name f) ∨ name = "out" ∨ name = "config" := by
  have hformat : (ReportFormat.ofName? value).isSome ↔ ∃ f, value = ReportFormat.name f := by
    simp only [Option.isSome_iff_exists, ReportFormat.ofName?_eq_some_iff]
  rw [← hformat]
  by_cases h₁ : name = "format"
  · subst h₁
    simp [Grammar.Knows, Subcommand.grammar]
  · by_cases h₂ : name = "out"
    · subst h₂
      simp [Grammar.Knows, Subcommand.grammar, Subcommand.anyValue, List.lookup_cons]
    · by_cases h₃ : name = "config"
      · subst h₃
        simp [Grammar.Knows, Subcommand.grammar, Subcommand.anyValue, List.lookup_cons]
      · simp [Grammar.Knows, Subcommand.grammar, List.lookup_cons, h₁, h₂, h₃,
          beq_eq_false_iff_ne.mpr h₁, beq_eq_false_iff_ne.mpr h₂, beq_eq_false_iff_ne.mpr h₃]

/-- The format that is given is told by its name. -/
theorem map_name_lookup_format {g : Given}
    (hknows : ∀ i, g.Has i → Subcommand.check.grammar.Knows i) :
    ((g.options.lookup "format").bind ReportFormat.ofName?).map ReportFormat.name =
      g.options.lookup "format" := by
  cases hvalue : g.options.lookup "format" with
  | none => rfl
  | some value =>
      obtain ⟨f, rfl⟩ : ∃ f, value = ReportFormat.name f := by
        simpa using knows_option_iff.mp (hknows (.option "format" value) hvalue)
      rw [Option.bind_some, ReportFormat.ofName?_eq_some_iff.mpr rfl, Option.map_some]

theorem has_iff_of_invocation {g : Given}
    (hknows : ∀ i, g.Has i → Subcommand.check.grammar.Knows i)
    (hoperand : ∃ text, g.Has (.operand text)) (h : Subcommand.check.invocation g = .check a)
    (i : Item) : g.Has i ↔ a.Has i := by
  cases h
  rcases i with name | ⟨name, value⟩ | text
  · have hname : name ∈ g.flags → name = "strict" :=
      fun h => knows_flag_iff.mp (hknows (.flag name) h)
    simp only [Given.Has, Has, decide_eq_true_eq]
    constructor
    · intro h
      cases hname h
      exact ⟨rfl, h⟩
    · rintro ⟨rfl, h⟩
      exact h
  · have hname : g.options.lookup name = some value →
        name = "format" ∨ name = "out" ∨ name = "config" :=
      fun h => (knows_option_iff.mp (hknows (.option name value) h)).imp_left And.left
    simp only [Given.Has, Has, map_name_lookup_format hknows]
    constructor
    · intro h
      rcases hname h with rfl | rfl | rfl
      · exact Or.inl ⟨rfl, h⟩
      · exact Or.inr (Or.inl ⟨rfl, h⟩)
      · exact Or.inr (Or.inr ⟨rfl, h⟩)
    · rintro (⟨rfl, h⟩ | ⟨rfl, h⟩ | ⟨rfl, h⟩) <;> exact h
  · obtain ⟨text', htext⟩ := hoperand
    simp only [Given.Has] at htext
    simp [Given.Has, Has, htext, eq_comm]

theorem invocation_eq_check_of_has {g : Given} (h : ∀ i, g.Has i ↔ a.Has i) :
    Subcommand.check.invocation g = .check a := by
  have hoption : ∀ name value, g.options.lookup name = some value ↔ a.Has (.option name value) :=
    fun name value => h (.option name value)
  have hformat : (g.options.lookup "format").bind ReportFormat.ofName? = a.format := by
    have hlookup : g.options.lookup "format" = a.format.map ReportFormat.name := by
      ext value
      simp [hoption, Has]
    rw [hlookup]
    cases hf : a.format with
    | none => rfl
    | some f => exact ReportFormat.ofName?_eq_some_iff.mpr rfl
  have hout : g.options.lookup "out" = a.out := by
    ext path
    simp [hoption, Has]
  have hconfig : g.options.lookup "config" = a.config := by
    ext path
    simp [hoption, Has]
  have hstrict : decide ("strict" ∈ g.flags) = a.strict := by
    have hflag : "strict" ∈ g.flags ↔ a.Has (.flag "strict") := h (.flag "strict")
    rw [Bool.eq_iff_iff, decide_eq_true_eq, hflag]
    simp [Has]
  have hevaluation : g.operand = some a.evaluation := (h (.operand a.evaluation)).mpr rfl
  simp only [Subcommand.invocation, hformat, hout, hconfig, hstrict, hevaluation,
    Option.getD_some]

theorem parse_check_eq_ok_iff : parse ("check" :: arguments) = .ok (.check a) ↔
    ∃ items, Subcommand.check.grammar.Spells arguments items ∧ (items.map Item.slot).Nodup ∧
      ∀ i, i ∈ items ↔ a.Has i := by
  have hparse : parse ("check" :: arguments) =
      (Given.addAll Subcommand.check.grammar false {} arguments).map Subcommand.check.invocation :=
    rfl
  rw [hparse, Except.map_eq_ok_iff]
  constructor
  · rintro ⟨g, hadd, heq⟩
    obtain ⟨items, hspells, hnodup, hoperand, hhas⟩ := Given.exists_items_of_addAll hadd
    obtain ⟨text, htext⟩ := hoperand rfl
    have hknows : ∀ i, g.Has i → Subcommand.check.grammar.Knows i :=
      fun i hi => hspells.knows i ((hhas i).mp hi)
    have hitems := has_iff_of_invocation hknows ⟨text, (hhas _).mpr htext⟩ heq
    exact ⟨items, hspells, hnodup, fun i => (hhas i).symm.trans (hitems i)⟩
  · rintro ⟨items, hspells, hnodup, hitems⟩
    have hoperand : .operand a.evaluation ∈ items := (hitems _).mpr rfl
    obtain ⟨g, hadd, hhas⟩ := Given.exists_addAll_of_spells
      (Subcommand.wellFormed_grammar .check) hspells hnodup fun _ => ⟨_, hoperand⟩
    exact ⟨g, hadd, invocation_eq_check_of_has fun i => (hhas i).trans (hitems i)⟩

/-- A check is asked to be strict by the flag in front of the separator. -/
theorem strict_iff_of_parse (h : parse ("check" :: arguments) = .ok (.check a)) :
    a.strict = true ↔ "--strict" ∈ Grammar.front arguments := by
  obtain ⟨items, hspells, -, hitems⟩ := parse_check_eq_ok_iff.mp h
  have hflag : Item.flag "strict" ∈ items ↔ "--" ++ "strict" ∈ Grammar.front arguments :=
    hspells.flag_mem_iff (Subcommand.wellFormed_grammar .check) (List.mem_singleton_self _)
  calc
    a.strict = true ↔ a.Has (.flag "strict") := by simp [Has]
    _ ↔ "--strict" ∈ Grammar.front arguments := (hitems _).symm.trans hflag

/-- A check is asked for what an option says by its value, joined to the option or after it. -/
theorem has_option_iff_of_parse {name value : String}
    (h : parse ("check" :: arguments) = .ok (.check a))
    (hname : name = "format" ∨ name = "out" ∨ name = "config") :
    a.Has (.option name value) ↔ Grammar.Asks arguments name value := by
  obtain ⟨items, hspells, -, hitems⟩ := parse_check_eq_ok_iff.mp h
  have hknown : ∃ accepts, Subcommand.check.grammar.options.lookup name = some accepts := by
    rcases hname with rfl | rfl | rfl <;> exact ⟨_, rfl⟩
  obtain ⟨accepts, hknown⟩ := hknown
  rw [← hitems]
  exact hspells.option_mem_iff (Subcommand.wellFormed_grammar .check) hknown

theorem asks_format_iff_of_parse {value : String}
    (h : parse ("check" :: arguments) = .ok (.check a)) :
    Grammar.Asks arguments "format" value ↔ a.format.map ReportFormat.name = some value := by
  simp [← has_option_iff_of_parse h, Has]

theorem asks_out_iff_of_parse {path : String}
    (h : parse ("check" :: arguments) = .ok (.check a)) :
    Grammar.Asks arguments "out" path ↔ a.out = some path := by
  simp [← has_option_iff_of_parse h, Has]

theorem asks_config_iff_of_parse {path : String}
    (h : parse ("check" :: arguments) = .ok (.check a)) :
    Grammar.Asks arguments "config" path ↔ a.config = some path := by
  simp [← has_option_iff_of_parse h, Has]

/-- A list of arguments that asks for a check with certain arguments. -/
def spelling (a : CheckArguments) : List String :=
  (a.format.toList.map fun f => "--" ++ ("format" ++ "=" ++ f.name)) ++
    ((a.out.toList.map fun path => "--" ++ ("out" ++ "=" ++ path)) ++
      ((a.config.toList.map fun path => "--" ++ ("config" ++ "=" ++ path)) ++
        ((if a.strict then ["--strict"] else []) ++ ["--", a.evaluation])))

/-- The items of the spelling. -/
def items (a : CheckArguments) : List Item :=
  (a.format.toList.map fun f => .option "format" f.name) ++
    ((a.out.toList.map fun path => .option "out" path) ++
      ((a.config.toList.map fun path => .option "config" path) ++
        ((if a.strict then [.flag "strict"] else []) ++ [.operand a.evaluation])))

theorem spells_spelling (a : CheckArguments) :
    Subcommand.check.grammar.Spells a.spelling a.items := by
  have hoperand : Subcommand.check.grammar.Spells ["--", a.evaluation] [.operand a.evaluation] :=
    .separated rfl
  have hstrict : Subcommand.check.grammar.Spells
      ((if a.strict then ["--strict"] else []) ++ ["--", a.evaluation])
      ((if a.strict then [.flag "strict"] else []) ++ [.operand a.evaluation]) := by
    cases a.strict with
    | false => exact hoperand
    | true => exact .flag (List.mem_singleton_self _) hoperand
  refine .joined_append rfl ?_ (.joined_append rfl ?_ (.joined_append rfl ?_ hstrict))
  · intro f _
    exact Option.isSome_iff_exists.mpr ⟨f, ReportFormat.ofName?_eq_some_iff.mpr rfl⟩
  · exact fun _ _ => rfl
  · exact fun _ _ => rfl

/-- Every choice of arguments for a check can be asked for. -/
theorem parse_spelling (a : CheckArguments) :
    parse ("check" :: a.spelling) = .ok (.check a) := by
  refine parse_check_eq_ok_iff.mpr ⟨a.items, spells_spelling a, ?_, ?_⟩
  · rcases a with ⟨_, _ | _, _ | _, _ | _, _ | _⟩ <;> simp [items, Item.slot]
  · rintro (name | ⟨name, value⟩ | text)
    · simp [items, Has, and_comm]
    · have hstrict : Item.option name value ∉ if a.strict then [.flag "strict"] else [] := by
        split <;> simp
      have hvalue : ∀ {α : Type} (values : Option α) (text : α → String) (option : String),
          (∃ v, values = some v ∧ option = name ∧ text v = value) ↔
            name = option ∧ ∃ v, values = some v ∧ text v = value := by
        intro α values text option
        rw [eq_comm (a := name), ← exists_and_left]
        exact exists_congr fun v => and_left_comm
      simp only [items, Has, List.mem_append, List.mem_map, Option.mem_toList, Item.option.injEq,
        Option.map_eq_some_iff, List.mem_singleton, reduceCtorEq, hstrict, or_false, hvalue,
        exists_eq_right]
    · simp [items, Has]

end CheckArguments

end ImportRepair.CommandLine
