import ImportRepair.Proofs.ArgumentForms
import ImportRepair.Proofs.Except

/-!
# Items of argument lists

A list of arguments is accepted just when it is written for flags, options with values and operands
that the grammar knows, none of them twice and the operand among them if there has to be one; and
these are what is given (`exists_items_of_addAll`, `exists_addAll_of_spells`).

## Implementation notes

An option waits for its value and is settled later than the arguments after it are looked at. The
proofs use that what comes next is taken up as if it had been settled at once (`addAll_of_settle`).
-/

namespace ImportRepair.CommandLine

/-- A name that can be told from others and from the values joined to it. -/
def IsName (name : String) : Prop := name ≠ "" ∧ '=' ∉ name.toList ∧ name ≠ "help"

instance (name : String) : Decidable (IsName name) :=
  inferInstanceAs (Decidable (_ ∧ _ ∧ _))

/-- The flags and the options of a grammar have names, and no flag is named like an option. -/
structure Grammar.WellFormed (grammar : Grammar) : Prop where
  flags : ∀ name ∈ grammar.flags, IsName name
  options : ∀ name accepts, grammar.options.lookup name = some accepts →
    IsName name ∧ name ∉ grammar.flags

/-- What is given by an argument, or by an option and the argument after it. -/
inductive Item
  | flag (name : String)
  | option (name value : String)
  | operand (text : String)
  deriving DecidableEq, Repr

/-- What an item is for, which may be given only once. -/
def Item.slot : Item → Item
  | .flag name => .flag name
  | .option name _ => .option name ""
  | .operand _ => .operand ""

/-- A list of arguments is written for a list of items. -/
inductive Grammar.Spells (grammar : Grammar) : List String → List Item → Prop
  | nil : grammar.Spells [] []
  | separator : grammar.Spells ["--"] []
  | separated {text : String} (known : grammar.operand = true) :
      grammar.Spells ["--", text] [.operand text]
  | flag {name : String} {arguments : List String} {items : List Item}
      (known : name ∈ grammar.flags) (rest : grammar.Spells arguments items) :
      grammar.Spells (("--" ++ name) :: arguments) (.flag name :: items)
  | joined {name value : String} {accepts : String → Bool} {arguments : List String}
      {items : List Item} (known : grammar.options.lookup name = some accepts)
      (accepted : accepts value = true) (rest : grammar.Spells arguments items) :
      grammar.Spells (("--" ++ (name ++ "=" ++ value)) :: arguments) (.option name value :: items)
  | apart {name value : String} {accepts : String → Bool} {arguments : List String}
      {items : List Item} (known : grammar.options.lookup name = some accepts)
      (accepted : accepts value = true) (plain : IsPlain value)
      (rest : grammar.Spells arguments items) :
      grammar.Spells (("--" ++ name) :: value :: arguments) (.option name value :: items)
  | operand {text : String} {arguments : List String} {items : List Item}
      (known : grammar.operand = true) (plain : IsPlain text)
      (rest : grammar.Spells arguments items) :
      grammar.Spells (text :: arguments) (.operand text :: items)

namespace Given

variable {grammar : Grammar} {g g' : Given}

/-- Take an item up, unless there is one like it. -/
def take? (g : Given) : Item → Option Given
  | .flag name => if name ∈ g.flags then none else some { g with flags := name :: g.flags }
  | .option name value =>
    if (g.options.lookup name).isSome then none
    else some { g with options := (name, value) :: g.options }
  | .operand text => if g.operand.isSome then none else some { g with operand := text }

theorem pending_of_take? {item : Item} (h : g.take? item = some g') :
    g'.pending = g.pending := by
  cases item with
  | flag | option | operand =>
      cases (Option.ite_none_left_eq_some.mp h).2
      rfl

theorem setFlag_eq_ok_iff {name : String} :
    g.setFlag name = .ok g' ↔ g.take? (.flag name) = some g' := by
  rw [setFlag, take?]
  split <;> simp

theorem setOption_eq_ok_iff {accepts : String → Bool} {name value : String} :
    g.setOption accepts name value = .ok g' ↔
      accepts value = true ∧ g.take? (.option name value) = some g' := by
  rw [setOption, take?]
  split
  · simp
  · split <;> simp [*]

theorem settle_of_settled (h : g.pending = none) : g.settle grammar = .ok g := by
  rw [settle, h]

theorem settled_of_settle (h : g.settle grammar = .ok g') :
    g'.pending = none ∧ g'.operand = g.operand := by
  rw [settle] at h
  split at h
  · cases h
    exact ⟨‹_›, rfl⟩
  · cases h
  · obtain ⟨-, h⟩ := setOption_eq_ok_iff.mp h
    simp only [take?, Option.ite_none_left_eq_some] at h
    rw [← Option.some.inj h.2]
    exact ⟨rfl, rfl⟩

theorem addOperand_eq_ok_iff {text : String} (h : g.pending = none) :
    g.addOperand grammar text = .ok g' ↔
      grammar.operand = true ∧ g.take? (.operand text) = some g' := by
  rw [addOperand, take?, settle_of_settled h]
  cases g.operand <;> cases grammar.operand <;> simp [bind, Except.bind, pure, Except.pure]

/-- Nothing more is taken up before the pending option is settled. -/
theorem addOperand_of_settle {text : String} (h : g.settle grammar = .ok g') :
    g.addOperand grammar text = g'.addOperand grammar text := by
  obtain ⟨hsettled, hoperand⟩ := settled_of_settle h
  rw [addOperand, addOperand, h, settle_of_settled hsettled, hoperand]

theorem addLong_of_settle {name : String} {value : Option String}
    (h : g.settle grammar = .ok g') :
    g.addLong grammar name value = g'.addLong grammar name value := by
  rw [addLong, addLong, h, settle_of_settled (settled_of_settle h).1]

theorem addWord_of_settle {text : String} (h : g.settle grammar = .ok g') :
    g.addWord grammar text = g'.addWord grammar text := by
  have hsettled := (settled_of_settle h).1
  rw [addWord, addWord, hsettled, ← addOperand_of_settle h]
  split
  · rename_i hpending
    rw [settle, hpending] at h
    cases h
  · rfl

theorem addShort_of_settle {c : Char} (h : g.settle grammar = .ok g') :
    g.addShort grammar c = g'.addShort grammar c := by
  rw [addShort, addShort, h, settle_of_settled (settled_of_settle h).1]

/-- The arguments after a pending option are taken up as if it were settled. -/
theorem addAll_of_settle {only : Bool} {arguments : List String}
    (h : g.settle grammar = .ok g') :
    addAll grammar only g arguments = addAll grammar only g' arguments := by
  induction arguments generalizing only with
  | nil => rw [addAll, addAll, h, settle_of_settled (settled_of_settle h).1]
  | cons argument arguments ih =>
      rw [addAll, addAll, addOperand_of_settle h]
      split
      · rfl
      · cases Form.ofArgument argument with
        | separator => exact ih
        | long name value => dsimp only; rw [addLong_of_settle h]
        | short c => dsimp only; rw [addShort_of_settle h]
        | word text => dsimp only; rw [addWord_of_settle h]

theorem addShort_ne_ok {c : Char} : g.addShort grammar c ≠ .ok g' := by
  rw [addShort]
  split
  · cases g.settle grammar <;> simp [bind, Except.bind]
  · simp

/-- What one argument can be: the separator, an option or a flag, or a word. -/
theorem addAll_cons_eq_ok_iff {argument : String} {arguments : List String} :
    addAll grammar false g (argument :: arguments) = .ok g' ↔
      (argument = "--" ∧ addAll grammar true g arguments = .ok g') ∨
      (∃ name value g₁, (Form.long name value).Writes argument ∧
        g.addLong grammar name value = .ok g₁ ∧ addAll grammar false g₁ arguments = .ok g') ∨
      ∃ g₁, IsPlain argument ∧ g.addWord grammar argument = .ok g₁ ∧
        addAll grammar false g₁ arguments = .ok g' := by
  rw [addAll, if_neg Bool.false_ne_true]
  constructor
  · intro h
    have hwrites := Form.writes_ofArgument argument
    cases hform : Form.ofArgument argument with
    | separator =>
        rw [hform] at h hwrites
        cases hwrites
        exact Or.inl ⟨rfl, h⟩
    | long name value =>
        rw [hform] at h hwrites
        obtain ⟨g₁, hadd, hrest⟩ := Except.bind_eq_ok_iff.mp h
        exact Or.inr (Or.inl ⟨name, value, g₁, hwrites, hadd, hrest⟩)
    | short c =>
        rw [hform] at h
        obtain ⟨g₁, hadd, -⟩ := Except.bind_eq_ok_iff.mp h
        exact absurd hadd addShort_ne_ok
    | word text =>
        rw [hform] at h hwrites
        cases hwrites with
        | word hplain =>
            obtain ⟨g₁, hadd, hrest⟩ := Except.bind_eq_ok_iff.mp h
            exact Or.inr (Or.inr ⟨g₁, hplain, hadd, hrest⟩)
  · rintro (⟨rfl, h⟩ | ⟨name, value, g₁, hwrites, hadd, hrest⟩ | ⟨g₁, hplain, hadd, hrest⟩)
    · exact h
    · rw [hwrites.ofArgument_eq]
      exact Except.bind_eq_ok_iff.mpr ⟨g₁, hadd, hrest⟩
    · rw [(Form.Writes.word hplain).ofArgument_eq]
      exact Except.bind_eq_ok_iff.mpr ⟨g₁, hadd, hrest⟩

theorem addAll_true_cons_eq_ok_iff {argument : String} {arguments : List String} :
    addAll grammar true g (argument :: arguments) = .ok g' ↔
      ∃ g₁, g.addOperand grammar argument = .ok g₁ ∧ addAll grammar true g₁ arguments = .ok g' :=
  Except.bind_eq_ok_iff

variable {e : UsageError}

theorem addOperand_ne_ok {text : String} (h : g.settle grammar = .error e) :
    g.addOperand grammar text ≠ .ok g' := by
  rw [addOperand, h]
  split <;> simp [bind, Except.bind]

theorem addLong_ne_ok {name : String} {value : Option String} (h : g.settle grammar = .error e) :
    g.addLong grammar name value ≠ .ok g' := by
  rw [addLong, h]
  split
  · split <;> simp [bind, Except.bind]
  · cases grammar.options.lookup name <;> simp [bind, Except.bind]

/-- Nothing is given by arguments after an option that is refused, unless a value for it may
come. -/
theorem addAll_ne_ok {only : Bool} {arguments : List String} (h : g.settle grammar = .error e)
    (hvalue : only = true ∨ ∀ name, g.pending ≠ some (name, none)) :
    addAll grammar only g arguments ≠ .ok g' := by
  have htrue : ∀ arguments, addAll grammar true g arguments ≠ .ok g' := by
    intro arguments hok
    cases arguments with
    | nil => simp [addAll, h, bind, Except.bind] at hok
    | cons argument arguments =>
        obtain ⟨g₁, hadd, -⟩ := addAll_true_cons_eq_ok_iff.mp hok
        exact addOperand_ne_ok h hadd
  cases only with
  | true => exact htrue arguments
  | false =>
      cases arguments with
      | nil => simp [addAll, h, bind, Except.bind]
      | cons argument arguments =>
          intro hok
          rcases addAll_cons_eq_ok_iff.mp hok with
            ⟨-, hok⟩ | ⟨name, value, g₁, -, hadd, -⟩ | ⟨g₁, -, hadd, -⟩
          · exact htrue arguments hok
          · exact addLong_ne_ok h hadd
          · rw [addWord] at hadd
            split at hadd
            · rename_i hpending
              exact (hvalue.resolve_left nofun) _ hpending
            · exact addOperand_ne_ok h hadd

/-- After an option without a value there has to be a word, which is its value. -/
theorem addAll_pending_eq_ok_iff {name : String} {arguments : List String}
    (h : g.pending = some (name, none)) :
    addAll grammar false g arguments = .ok g' ↔
      ∃ value rest, arguments = value :: rest ∧ IsPlain value ∧
        addAll grammar false { g with pending := some (name, some value) } rest = .ok g' := by
  have hsettle : g.settle grammar = .error .invalidValue := by rw [settle, h]
  have hword : ∀ text, g.addWord grammar text =
      .ok { g with pending := some (name, some text) } := by
    intro text
    rw [addWord, h]
  cases arguments with
  | nil => simp [addAll, hsettle, bind, Except.bind]
  | cons argument arguments =>
      rw [addAll_cons_eq_ok_iff]
      constructor
      · rintro (⟨-, hok⟩ | ⟨_, value, g₁, -, hadd, -⟩ | ⟨g₁, hplain, hadd, hrest⟩)
        · exact absurd hok (addAll_ne_ok hsettle (Or.inl rfl))
        · exact absurd hadd (addLong_ne_ok hsettle)
        · rw [hword] at hadd
          cases hadd
          exact ⟨argument, arguments, rfl, hplain, hrest⟩
      · rintro ⟨value, rest, heq, hplain, hrest⟩
        cases heq
        exact Or.inr (Or.inr ⟨_, hplain, hword argument, hrest⟩)

/-- An option and the argument after it are taken up as one. -/
theorem addAll_apart_eq_ok_iff {name : String} {accepts : String → Bool}
    {arguments : List String} (hknown : grammar.options.lookup name = some accepts)
    (hg : g.pending = none) :
    addAll grammar false { g with pending := some (name, none) } arguments = .ok g' ↔
      ∃ value rest g₁, arguments = value :: rest ∧ IsPlain value ∧ accepts value = true ∧
        g.take? (.option name value) = some g₁ ∧ addAll grammar false g₁ rest = .ok g' := by
  have hsettle : ∀ value, settle { g with pending := some (name, some value) } grammar =
      g.setOption accepts name value := by
    intro value
    cases g
    cases hg
    simp only [settle, hknown, Option.getD_some]
  rw [addAll_pending_eq_ok_iff rfl]
  constructor
  · rintro ⟨value, rest, heq, hplain, hrest⟩
    cases hset : g.setOption accepts name value with
    | error e => exact absurd hrest (addAll_ne_ok ((hsettle value).trans hset) (Or.inr (by simp)))
    | ok g₁ =>
        rw [addAll_of_settle ((hsettle value).trans hset)] at hrest
        obtain ⟨haccepts, htake⟩ := setOption_eq_ok_iff.mp hset
        exact ⟨value, rest, g₁, heq, hplain, haccepts, htake, hrest⟩
  · rintro ⟨value, rest, g₁, heq, hplain, haccepts, htake, hrest⟩
    have hset := setOption_eq_ok_iff.mpr ⟨haccepts, htake⟩
    refine ⟨value, rest, heq, hplain, ?_⟩
    rwa [addAll_of_settle ((hsettle value).trans hset)]

theorem addAll_nil_eq_ok_iff {only : Bool} (hg : g.pending = none) :
    addAll grammar only g [] = .ok g' ↔ g = g' ∧ (grammar.operand = true → g'.operand ≠ none) := by
  rw [addAll, settle_of_settled hg]
  by_cases hmissing : grammar.operand = true ∧ g.operand = none
  · simp only [bind, Except.bind, if_pos hmissing, reduceCtorEq, false_iff]
    rintro ⟨rfl, hgiven⟩
    exact hgiven hmissing.1 hmissing.2
  · simp only [bind, Except.bind, if_neg hmissing, Except.ok.injEq]
    grind

/-- After the separator there is the operand at most. -/
theorem addAll_true_eq_ok_iff {arguments : List String} (hg : g.pending = none) :
    addAll grammar true g arguments = .ok g' ↔
      (grammar.operand = true → g'.operand ≠ none) ∧
        (arguments = [] ∧ g = g' ∨ ∃ text, arguments = [text] ∧ grammar.operand = true ∧
          g.take? (.operand text) = some g') := by
  cases arguments with
  | nil => simp [addAll_nil_eq_ok_iff hg, and_comm]
  | cons text arguments =>
      simp only [addAll_true_cons_eq_ok_iff, addOperand_eq_ok_iff hg]
      constructor
      · rintro ⟨g₁, ⟨hknown, htake⟩, hrest⟩
        have hg₁ : g₁.pending = none := (pending_of_take? htake).trans hg
        cases arguments with
        | nil =>
            obtain ⟨rfl, hgiven⟩ := (addAll_nil_eq_ok_iff hg₁).mp hrest
            exact ⟨hgiven, Or.inr ⟨text, rfl, hknown, htake⟩⟩
        | cons text' arguments =>
            -- There is an operand already.
            obtain ⟨g₂, hadd, -⟩ := addAll_true_cons_eq_ok_iff.mp hrest
            obtain ⟨-, htake'⟩ := (addOperand_eq_ok_iff hg₁).mp hadd
            simp only [take?, Option.ite_none_left_eq_some] at htake htake'
            rw [← Option.some.inj htake.2] at htake'
            exact absurd rfl htake'.1
      · rintro ⟨hgiven, ⟨hnil, -⟩ | ⟨_, heq, hknown, htake⟩⟩
        · cases hnil
        · cases heq
          exact ⟨g', ⟨hknown, htake⟩, (addAll_nil_eq_ok_iff
            ((pending_of_take? htake).trans hg)).mpr ⟨rfl, hgiven⟩⟩

theorem addLong_eq_ok_iff {name : String} {value : Option String} (hg : g.pending = none) :
    g.addLong grammar name value = .ok g' ↔ name ≠ "help" ∧
      ((name ∈ grammar.flags ∧ value = none ∧ g.take? (.flag name) = some g') ∨
        name ∉ grammar.flags ∧ ∃ accepts, grammar.options.lookup name = some accepts ∧
          ((∃ v, value = some v ∧ accepts v = true ∧ g.take? (.option name v) = some g') ∨
            value = none ∧ g' = { g with pending := some (name, none) })) := by
  rw [addLong, settle_of_settled hg]
  by_cases hhelp : name = "help"
  · simp only [hhelp, true_or, if_true]
    cases value <;> simp [bind, Except.bind]
  · by_cases hflag : name ∈ grammar.flags
    · cases value <;> simp [hhelp, hflag, bind, Except.bind, setFlag_eq_ok_iff]
    · cases hknown : grammar.options.lookup name with
      | none => simp [hhelp, hflag]
      | some accepts =>
          cases value with
          | none =>
              simp [hhelp, hflag, bind, Except.bind]
              exact eq_comm
          | some v => simp [hhelp, hflag, bind, Except.bind, setOption_eq_ok_iff]

/-- Arguments that are accepted are written for a list of items. -/
theorem exists_spells_of_addAll {arguments : List String} (hg : g.pending = none)
    (h : addAll grammar false g arguments = .ok g') :
    ∃ items, grammar.Spells arguments items ∧ items.foldlM take? g = some g' ∧
      (grammar.operand = true → g'.operand ≠ none) := by
  induction hlength : arguments.length using Nat.strongRecOn generalizing arguments g with
  | ind n ih =>
  subst hlength
  -- What is written for the item at the front is followed by what is written for the others.
  have hcons : ∀ {item g₁ rest}, rest.length < arguments.length → g.take? item = some g₁ →
      addAll grammar false g₁ rest = .ok g' → ∃ items, grammar.Spells rest items ∧
        (item :: items).foldlM take? g = some g' ∧ (grammar.operand = true → g'.operand ≠ none) := by
    intro item g₁ rest hlt htake hok
    obtain ⟨items, hspells, hfold, hgiven⟩ :=
      ih _ hlt ((pending_of_take? htake).trans hg) hok rfl
    exact ⟨items, hspells, by simp [htake, hfold], hgiven⟩
  cases arguments with
  | nil =>
      obtain ⟨rfl, hgiven⟩ := (addAll_nil_eq_ok_iff hg).mp h
      exact ⟨[], .nil, rfl, hgiven⟩
  | cons argument arguments =>
      have hlt : arguments.length < (argument :: arguments).length := Nat.lt_succ_self _
      rcases addAll_cons_eq_ok_iff.mp h with
        ⟨rfl, hok⟩ | ⟨name, value, g₁, hwrites, hadd, hok⟩ | ⟨g₁, hplain, hadd, hok⟩
      · obtain ⟨hgiven, ⟨rfl, rfl⟩ | ⟨text, rfl, hknown, htake⟩⟩ := (addAll_true_eq_ok_iff hg).mp hok
        · exact ⟨[], .separator, rfl, hgiven⟩
        · exact ⟨[.operand text], .separated hknown, by simp [htake], hgiven⟩
      · obtain ⟨-, ⟨hflag, rfl, htake⟩ |
          ⟨-, accepts, hknown, ⟨v, rfl, haccepts, htake⟩ | ⟨rfl, rfl⟩⟩⟩ :=
          (addLong_eq_ok_iff hg).mp hadd
        · cases hwrites
          obtain ⟨items, hspells, hfold⟩ := hcons hlt htake hok
          exact ⟨_, .flag hflag hspells, hfold⟩
        · cases hwrites
          obtain ⟨items, hspells, hfold⟩ := hcons hlt htake hok
          exact ⟨_, .joined hknown haccepts hspells, hfold⟩
        · cases hwrites
          obtain ⟨value, rest, g₁, rfl, hplain, haccepts, htake, hok⟩ :=
            (addAll_apart_eq_ok_iff hknown hg).mp hok
          obtain ⟨items, hspells, hfold⟩ := hcons (Nat.lt_succ_of_lt (Nat.lt_succ_self _)) htake hok
          exact ⟨_, .apart hknown haccepts hplain hspells, hfold⟩
      · rw [addWord, hg] at hadd
        obtain ⟨hknown, htake⟩ := (addOperand_eq_ok_iff hg).mp hadd
        obtain ⟨items, hspells, hfold⟩ := hcons hlt htake hok
        exact ⟨_, .operand hknown hplain hspells, hfold⟩

/-- Arguments that are written for items are accepted if nothing is given twice. -/
theorem addAll_of_spells {arguments : List String} {items : List Item}
    (hgrammar : grammar.WellFormed) (hg : g.pending = none)
    (hspells : grammar.Spells arguments items) (hfold : items.foldlM take? g = some g')
    (hgiven : grammar.operand = true → g'.operand ≠ none) :
    addAll grammar false g arguments = .ok g' := by
  have hcons : ∀ {g : Given} {item items}, g.pending = none →
      (item :: items).foldlM take? g = some g' →
      ∃ g₁, g.take? item = some g₁ ∧ g₁.pending = none ∧ items.foldlM take? g₁ = some g' := by
    intro g item items hg hfold
    rw [List.foldlM_cons, Option.bind_eq_bind, Option.bind_eq_some_iff] at hfold
    obtain ⟨g₁, htake, hfold⟩ := hfold
    exact ⟨g₁, htake, (pending_of_take? htake).trans hg, hfold⟩
  induction hspells generalizing g with
  | nil =>
      rw [← Option.some.inj hfold] at hgiven ⊢
      exact (addAll_nil_eq_ok_iff hg).mpr ⟨rfl, hgiven⟩
  | separator =>
      rw [← Option.some.inj hfold] at hgiven ⊢
      exact addAll_cons_eq_ok_iff.mpr (Or.inl ⟨rfl, (addAll_nil_eq_ok_iff hg).mpr ⟨rfl, hgiven⟩⟩)
  | separated known =>
      obtain ⟨g₁, htake, -, hfold⟩ := hcons hg hfold
      rw [← Option.some.inj hfold] at hgiven ⊢
      exact addAll_cons_eq_ok_iff.mpr (Or.inl ⟨rfl,
        (addAll_true_eq_ok_iff hg).mpr ⟨hgiven, Or.inr ⟨_, rfl, known, htake⟩⟩⟩)
  | flag known rest ih =>
      obtain ⟨g₁, htake, hg₁, hfold⟩ := hcons hg hfold
      obtain ⟨hne, heq, hhelp⟩ := hgrammar.flags _ known
      have hadd := (addLong_eq_ok_iff hg).mpr ⟨hhelp, Or.inl ⟨known, rfl, htake⟩⟩
      exact addAll_cons_eq_ok_iff.mpr (Or.inr (Or.inl ⟨_, none, g₁, .long hne heq, hadd,
        ih hg₁ hfold⟩))
  | joined known accepted rest ih =>
      obtain ⟨g₁, htake, hg₁, hfold⟩ := hcons hg hfold
      obtain ⟨⟨-, heq, hhelp⟩, hflag⟩ := hgrammar.options _ _ known
      have hadd := (addLong_eq_ok_iff hg).mpr
        ⟨hhelp, Or.inr ⟨hflag, _, known, Or.inl ⟨_, rfl, accepted, htake⟩⟩⟩
      exact addAll_cons_eq_ok_iff.mpr (Or.inr (Or.inl ⟨_, some _, g₁, .joined heq, hadd,
        ih hg₁ hfold⟩))
  | apart known accepted plain rest ih =>
      obtain ⟨g₁, htake, hg₁, hfold⟩ := hcons hg hfold
      obtain ⟨⟨hne, heq, hhelp⟩, hflag⟩ := hgrammar.options _ _ known
      have hadd : g.addLong grammar _ none = .ok { g with pending := some (_, none) } :=
        (addLong_eq_ok_iff hg).mpr ⟨hhelp, Or.inr ⟨hflag, _, known, Or.inr ⟨rfl, rfl⟩⟩⟩
      exact addAll_cons_eq_ok_iff.mpr (Or.inr (Or.inl ⟨_, none, _, .long hne heq, hadd,
        (addAll_apart_eq_ok_iff known hg).mpr
          ⟨_, _, g₁, rfl, plain, accepted, htake, ih hg₁ hfold⟩⟩))
  | operand known plain rest ih =>
      obtain ⟨g₁, htake, hg₁, hfold⟩ := hcons hg hfold
      refine addAll_cons_eq_ok_iff.mpr (Or.inr (Or.inr ⟨g₁, plain, ?_, ih hg₁ hfold⟩))
      rw [addWord, hg]
      exact (addOperand_eq_ok_iff hg).mpr ⟨known, htake⟩

theorem lookup_cons_of_ne {name name' value : String} {options : List (String × String)}
    (h : name' ≠ name) : ((name, value) :: options).lookup name' = options.lookup name' := by
  rw [List.lookup_cons, beq_eq_false_iff_ne.mpr h]

/-- What an item says is given. -/
def Has (g : Given) : Item → Prop
  | .flag name => name ∈ g.flags
  | .option name value => g.options.lookup name = some value
  | .operand text => g.operand = some text

theorem has_of_take? {i j : Item} (h : g.take? i = some g') : g'.Has j ↔ j = i ∨ g.Has j := by
  cases i with
  | flag name =>
      cases (Option.ite_none_left_eq_some.mp h).2
      cases j <;> simp [Has]
  | option name value =>
      obtain ⟨hnone, heq⟩ := Option.ite_none_left_eq_some.mp h
      cases heq
      cases j with
      | option name' value' =>
          by_cases hname : name' = name
          · subst hname
            simp [Has, Option.not_isSome_iff_eq_none.mp hnone, eq_comm]
          · simp [Has, lookup_cons_of_ne hname, hname]
      | flag | operand => simp [Has]
  | operand text =>
      obtain ⟨hnone, heq⟩ := Option.ite_none_left_eq_some.mp h
      cases heq
      cases j with
      | operand text' =>
          have hnone : g.operand = none := by simpa using hnone
          simp [Has, hnone, eq_comm]
      | flag | option => simp [Has]

/-- The items that were taken up are given, and nothing else beside what was given before. -/
theorem has_of_foldlM_take? {items : List Item} {j : Item} (h : items.foldlM take? g = some g') :
    g'.Has j ↔ j ∈ items ∨ g.Has j := by
  induction items generalizing g with
  | nil =>
      cases h
      simp
  | cons i items ih =>
      rw [List.foldlM_cons, Option.bind_eq_bind, Option.bind_eq_some_iff] at h
      obtain ⟨g₁, htake, hfold⟩ := h
      rw [ih hfold, has_of_take? htake, List.mem_cons]
      grind

/-- Taking an item up leaves room for all that is for something else. -/
theorem isSome_take?_of_take? {i j : Item} (h : g.take? i = some g') :
    (g'.take? j).isSome ↔ j.slot ≠ i.slot ∧ (g.take? j).isSome := by
  cases i with
  | flag name =>
      cases (Option.ite_none_left_eq_some.mp h).2
      cases j <;> simp [take?, Item.slot]
  | option name value =>
      cases (Option.ite_none_left_eq_some.mp h).2
      cases j with
      | option name' value' =>
          by_cases hname : name' = name
          · simp [take?, Item.slot, hname]
          · simp only [take?, lookup_cons_of_ne hname]
            simp [Item.slot, hname]
      | flag | operand => simp [take?, Item.slot]
  | operand text =>
      cases (Option.ite_none_left_eq_some.mp h).2
      cases j <;> simp [take?, Item.slot]

/-- Items are taken up one after the other if no two are for the same and none is given yet. -/
theorem isSome_foldlM_take?_iff {items : List Item} : (items.foldlM take? g).isSome ↔
    (items.map Item.slot).Nodup ∧ ∀ i ∈ items, (g.take? i).isSome := by
  induction items generalizing g with
  | nil => simp
  | cons i items ih =>
      rw [List.foldlM_cons, List.map_cons, List.nodup_cons, List.forall_mem_cons]
      cases htake : g.take? i with
      | none => simp
      | some g₁ =>
          simp only [Option.bind_eq_bind, Option.bind_some, ih, isSome_take?_of_take? htake]
          simp
          grind

theorem isSome_take?_empty (i : Item) : (take? {} i).isSome := by
  cases i <;> rfl

theorem has_empty (i : Item) : ¬Has {} i := by
  cases i <;> simp [Has]

/-- Accepted arguments are written for the items that they give, and no two of these are for the
same. -/
theorem exists_items_of_addAll {arguments : List String}
    (h : addAll grammar false {} arguments = .ok g) :
    ∃ items, grammar.Spells arguments items ∧ (items.map Item.slot).Nodup ∧
      (grammar.operand = true → ∃ text, .operand text ∈ items) ∧ ∀ i, g.Has i ↔ i ∈ items := by
  obtain ⟨items, hspells, hfold, hgiven⟩ := exists_spells_of_addAll rfl h
  have hhas : ∀ i, g.Has i ↔ i ∈ items := by
    intro i
    rw [has_of_foldlM_take? hfold, or_iff_left (has_empty i)]
  have hsome : (items.foldlM take? {}).isSome := by
    rw [hfold]
    rfl
  refine ⟨items, hspells, (isSome_foldlM_take?_iff.mp hsome).1, ?_, hhas⟩
  intro hoperand
  obtain ⟨text, htext⟩ := Option.ne_none_iff_exists'.mp (hgiven hoperand)
  exact ⟨text, (hhas (.operand text)).mp htext⟩

/-- Arguments that are written for items are accepted if no two of these are for the same and there
is an operand if there has to be one. -/
theorem exists_addAll_of_spells {arguments : List String} {items : List Item}
    (hgrammar : grammar.WellFormed) (hspells : grammar.Spells arguments items)
    (hnodup : (items.map Item.slot).Nodup)
    (hgiven : grammar.operand = true → ∃ text, .operand text ∈ items) :
    ∃ g, addAll grammar false {} arguments = .ok g ∧ ∀ i, g.Has i ↔ i ∈ items := by
  obtain ⟨g, hfold⟩ := Option.isSome_iff_exists.mp
    (isSome_foldlM_take?_iff.mpr ⟨hnodup, fun i _ => isSome_take?_empty i⟩)
  have hhas : ∀ i, g.Has i ↔ i ∈ items := by
    intro i
    rw [has_of_foldlM_take? hfold, or_iff_left (has_empty i)]
  refine ⟨g, addAll_of_spells hgrammar rfl hspells hfold ?_, hhas⟩
  intro hoperand
  obtain ⟨text, htext⟩ := hgiven hoperand
  rw [show g.operand = some text from (hhas (.operand text)).mpr htext]
  exact Option.some_ne_none text

end Given

end ImportRepair.CommandLine
