import ImportRepair.Proofs.Validation

/-!
# Rules on the shapes of arguments

Two values are arguments of a declaration if their shapes go together. The rules on shapes are tried
in a fixed order, the earliest broken rule is told, and the entries of lists are looked at only
where no rule is broken (`validate_ofJson`).

## Implementation notes

A value is sorted by its shape before any rule is tried, and of a list with an element that is no
string only the first such element is kept. `FirstNonString` says which one that is for the list as
it was given.
-/

namespace ImportRepair

/-- The element at an index is the first one of a list that is no string. -/
structure FirstNonString (items : List Json) (i : Nat) (x : Json) : Prop where
  entry : items[i]? = some x
  other : ∀ s, x ≠ .string s
  first : ∀ j < i, ∃ s, items[j]? = some (.string s)

variable {x y : Json} {items : List Json} {ns : List String} {i k : Nat} {kind : DepKind}
  {err : DeclarationError}

theorem firstNonString_zero_iff :
    FirstNonString (x :: items) 0 y ↔ y = x ∧ ∀ s, x ≠ .string s := by
  constructor
  · intro h
    obtain rfl : x = y := Option.some.inj h.entry
    exact ⟨rfl, h.other⟩
  · rintro ⟨hy, hx⟩
    exact ⟨by rw [hy]; rfl, by rwa [hy], fun j hj => absurd hj (Nat.not_lt_zero j)⟩

theorem firstNonString_succ_iff :
    FirstNonString (x :: items) (i + 1) y ↔ (∃ s, x = .string s) ∧ FirstNonString items i y := by
  constructor
  · intro h
    obtain ⟨s, hs⟩ := h.first 0 (Nat.succ_pos i)
    refine ⟨⟨s, Option.some.inj hs⟩, h.entry, h.other, ?_⟩
    intro j hj
    exact h.first (j + 1) (Nat.succ_lt_succ hj)
  · rintro ⟨⟨s, hs⟩, h⟩
    refine ⟨h.entry, h.other, ?_⟩
    intro j hj
    cases j with
    | zero => exact ⟨s, congrArg some hs⟩
    | succ j => exact h.first j (Nat.lt_of_succ_lt_succ hj)

namespace Argument

/-- The elements of a list are gone through as long as they are strings. -/
theorem sortItems_cons (k : Nat) (x : Json) (items : List Json) :
    (∃ s, x = .string s ∧ sortItems k (x :: items) = (sortItems (k + 1) items).map (s :: ·)) ∨
      ((∀ s, x ≠ .string s) ∧ sortItems k (x :: items) = .error (k, x.valueType)) := by
  cases x with
  | string s => exact Or.inl ⟨s, rfl, rfl⟩
  | null | boolean | integer | float | array | object => exact Or.inr ⟨by simp, rfl⟩

theorem sortItems_eq_ok_iff : sortItems k items = .ok ns ↔ items = ns.map .string := by
  constructor
  · intro h
    induction items generalizing k ns with
    | nil =>
        cases h
        rfl
    | cons x items ih =>
        rcases sortItems_cons k x items with ⟨s, hs, hrest⟩ | ⟨-, herr⟩
        · rw [hrest] at h
          obtain ⟨ns', hns', hcons⟩ := Except.map_eq_ok_iff.mp h
          rw [hs, ih hns', ← hcons, List.map_cons]
        · rw [herr] at h
          cases h
  · intro h
    rw [h, sortItems_strings]

/-- What is kept of a list is its first element that is no string. -/
theorem sortItems_eq_error_iff {e : Nat × ValueType} :
    sortItems k items = .error e ↔
      ∃ i y, FirstNonString items i y ∧ e = (k + i, y.valueType) := by
  induction items generalizing k with
  | nil =>
      simp only [sortItems, reduceCtorEq, false_iff]
      rintro ⟨i, y, h, _⟩
      cases h.entry
  | cons x items ih =>
      rcases sortItems_cons k x items with ⟨s, hs, hrest⟩ | ⟨hx, herr⟩
      · have hmap : sortItems k (x :: items) = .error e ↔ sortItems (k + 1) items = .error e := by
          rw [hrest]
          cases sortItems (k + 1) items <;> simp [Except.map]
        rw [hmap, ih]
        constructor
        · rintro ⟨i, y, h, he⟩
          exact ⟨i + 1, y, firstNonString_succ_iff.mpr ⟨⟨s, hs⟩, h⟩, by rw [he]; congr 1; omega⟩
        · rintro ⟨i, y, h, he⟩
          cases i with
          | zero => exact absurd hs ((firstNonString_zero_iff.mp h).2 s)
          | succ i => exact ⟨i, y, (firstNonString_succ_iff.mp h).2, by rw [he]; congr 1; omega⟩
      · rw [herr]
        constructor
        · intro h
          exact ⟨0, x, firstNonString_zero_iff.mpr ⟨rfl, hx⟩, (Except.error.inj h).symm⟩
        · rintro ⟨i, y, h, he⟩
          cases i with
          | zero => rw [he, (firstNonString_zero_iff.mp h).1, Nat.add_zero]
          | succ i =>
              obtain ⟨s, hs⟩ := (firstNonString_succ_iff.mp h).1
              exact absurd hs (hx s)

theorem ofJson_eq_omitted_iff : ofJson x = .omitted ↔ x = .null := by
  cases x with
  | array items => cases h : sortItems 0 items <;> simp [ofJson, h]
  | null | boolean | integer | float | string | object => simp [ofJson]

theorem ofJson_eq_text_iff {s : String} : ofJson x = .text s ↔ x = .string s := by
  cases x with
  | array items => cases h : sortItems 0 items <;> simp [ofJson, h]
  | null | boolean | integer | float | string | object => simp [ofJson]

theorem ofJson_eq_names_iff : ofJson x = .names ns ↔ x = .strings ns := by
  cases x with
  | array items =>
      simp only [Json.strings, Json.array.injEq, ← sortItems_eq_ok_iff (k := 0)]
      cases h : sortItems 0 items <;> simp [ofJson, h]
  | null | boolean | integer | float | string | object => simp [ofJson, Json.strings]

theorem strings_inj {ms : List String} : Json.strings ms = .strings ns ↔ ms = ns := by
  rw [← ofJson_eq_names_iff, ofJson_strings, names.injEq]

theorem isText_ofJson_iff : (ofJson x).isText = true ↔ ∃ s, x = .string s := by
  simp only [← ofJson_eq_text_iff]
  cases ofJson x <;> simp [isText]

/-- A value that is no list is told by its type. -/
theorem toNames_ofJson_of_not_array (hx : ∀ items, x ≠ .array items) :
    (ofJson x).toNames kind = .error (.notSequence kind x.valueType) := by
  cases x with
  | array items => exact absurd rfl (hx items)
  | null | boolean | integer | float | string | object => rfl

theorem toNames_ofJson_array_eq_error_iff :
    (ofJson (.array items)).toNames kind = .error err ↔
      ∃ i y, FirstNonString items i y ∧ err = .notString kind i y.valueType := by
  have hkept : (ofJson (.array items)).toNames kind = .error err ↔
      ∃ e, sortItems 0 items = .error e ∧ err = .notString kind e.1 e.2 := by
    cases h : sortItems 0 items <;> simp [ofJson, h, toNames, eq_comm]
  rw [hkept]
  simp only [sortItems_eq_error_iff, Nat.zero_add]
  constructor
  · rintro ⟨e, ⟨i, y, hy, he⟩, herr⟩
    exact ⟨i, y, hy, by rw [herr, he]⟩
  · rintro ⟨i, y, hy, herr⟩
    exact ⟨(i, y.valueType), ⟨i, y, hy, rfl⟩, herr⟩

end Argument

/-- Values of different types are told apart by the names of their types, an integer and any other
number among them. -/
theorem Json.valueType_name (x : Json) :
    (x.valueType.name = "NoneType" ↔ x = .null) ∧
      (x.valueType.name = "bool" ↔ ∃ b, x = .boolean b) ∧
      (x.valueType.name = "int" ↔ ∃ n, x = .integer n) ∧
      (x.valueType.name = "float" ↔ ∃ negative y, x = .float negative y) ∧
      (x.valueType.name = "string" ↔ ∃ s, x = .string s) ∧
      (x.valueType.name = "list" ↔ ∃ items, x = .array items) ∧
      (x.valueType.name = "dict" ↔ ∃ members, x = .object members) := by
  cases x <;> simp [valueType, ValueType.name]

/-- An entry of a list is at fault, and not the shape of an argument. -/
def DeclarationError.IsEntryFault : DeclarationError → Prop
  | .invalidName _ _ | .duplicate _ _ | .crossKind _ => True
  | _ => False

theorem isEntryFault_faultOf (others : List String) (n : String) :
    (faultOf kind others n).IsEntryFault := by
  rw [faultOf]
  split
  · trivial
  · split <;> trivial

/-- Two lists of names are refused for an entry. -/
theorem DirectDeps.isEntryFault_of_ofLists {regular dev : List String}
    (h : ofLists regular dev = .error err) : err.IsEntryFault := by
  rcases ofLists_eq_error_iff.mp h with hr | ⟨-, hd⟩
  · obtain ⟨_, _, -, rfl⟩ := fault?_eq_some_iff.mp hr
    exact isEntryFault_faultOf _ _
  · obtain ⟨_, _, -, rfl⟩ := fault?_eq_some_iff.mp hd
    exact isEntryFault_faultOf _ _

/-- The rules on the shapes of two arguments. -/
inductive ShapeRule
  /-- Beside a claim of every repository stands an empty list. -/
  | sibling
  /-- No other string is given. -/
  | text
  /-- Both arguments are given, or neither is. -/
  | pairing
  /-- The argument of a kind is a list. -/
  | list (kind : DepKind)
  /-- The elements of the list of a kind are strings. -/
  | elements (kind : DepKind)

namespace ShapeRule

/-- The rules in the order in which they are tried. -/
def inOrder : List ShapeRule :=
  [.sibling, .text, .pairing, .list .regular, .elements .regular, .list .dev, .elements .dev]

/-- Two values break a rule, and this is told of them. -/
def Broken (args : PerKind Json) : ShapeRule → DeclarationError → Prop
  | .sibling, err =>
    ((args.regular = .string "all" ∧ args.dev ≠ .array []) ∨
      (args.dev = .string "all" ∧ args.regular ≠ .array [])) ∧ err = .allWithSibling
  | .text, err =>
    (∃ s, s ≠ "all" ∧ (args.regular = .string s ∨ args.dev = .string s)) ∧ err = .unexpectedText
  | .pairing, err =>
    ((args.regular = .null ∧ args.dev ≠ .null) ∨ (args.regular ≠ .null ∧ args.dev = .null)) ∧
      err = .halfOmitted
  | .list kind, err =>
    (∀ items, args.get kind ≠ .array items) ∧ err = .notSequence kind (args.get kind).valueType
  | .elements kind, err =>
    ∃ items i x, args.get kind = .array items ∧ FirstNonString items i x ∧
      err = .notString kind i x.valueType

/-- No rule on shapes is told as a fault of an entry. -/
theorem not_isEntryFault_of_broken {args : PerKind Json} {rule : ShapeRule}
    (h : rule.Broken args err) : ¬err.IsEntryFault := by
  cases rule with
  | sibling | text | pairing | list =>
      rw [h.2]
      exact id
  | elements =>
      obtain ⟨_, _, _, -, -, rfl⟩ := h
      exact id

/-- Two values keep a rule. -/
def Kept (args : PerKind Json) (rule : ShapeRule) : Prop := ∀ err, ¬rule.Broken args err

/-- The earliest rule that two values break is told in this way. -/
def FirstBroken (args : PerKind Json) (rules : List ShapeRule) (err : DeclarationError) : Prop :=
  ∃ before rule after, rules = before ++ rule :: after ∧ rule.Broken args err ∧
    ∀ r ∈ before, r.Kept args

variable {args : PerKind Json} {rule : ShapeRule} {rules : List ShapeRule} {P : Prop}

theorem firstBroken_cons_iff : FirstBroken args (rule :: rules) err ↔
    rule.Broken args err ∨ (rule.Kept args ∧ FirstBroken args rules err) := by
  constructor
  · rintro ⟨before, r, after, hrules, hr, hbefore⟩
    cases before with
    | nil =>
        obtain ⟨rfl, -⟩ := List.cons.inj hrules
        exact Or.inl hr
    | cons b before =>
        obtain ⟨rfl, hrest⟩ := List.cons.inj hrules
        obtain ⟨hb, hbefore⟩ := List.forall_mem_cons.mp hbefore
        exact Or.inr ⟨hb, before, r, after, hrest, hr, hbefore⟩
  · intro h
    rcases h with hr | ⟨hkept, before, r, after, hrest, hr, hbefore⟩
    · exact ⟨[], rule, rules, rfl, hr, by simp⟩
    · exact ⟨rule :: before, r, after, by rw [hrest, List.cons_append], hr,
        List.forall_mem_cons.mpr ⟨hkept, hbefore⟩⟩

/-- Rules are tried one after the other, and what comes after them only if all are kept. -/
theorem firstBroken_or_kept_cons_iff :
    (FirstBroken args (rule :: rules) err ∨ ((∀ r ∈ rule :: rules, r.Kept args) ∧ P)) ↔
      rule.Broken args err ∨
        (rule.Kept args ∧ (FirstBroken args rules err ∨ ((∀ r ∈ rules, r.Kept args) ∧ P))) := by
  rw [firstBroken_cons_iff, List.forall_mem_cons, and_or_left, and_assoc, or_assoc]

theorem firstBroken_or_kept_nil_iff :
    (FirstBroken args [] err ∨ ((∀ r ∈ ([] : List ShapeRule), r.Kept args) ∧ P)) ↔ P := by
  simp [FirstBroken]

/-- A rule that is told in one way is broken or kept by its condition. -/
theorem kept_of_broken_iff {c : Prop} {e : DeclarationError}
    (h : ∀ err, rule.Broken args err ↔ c ∧ err = e) : rule.Kept args ↔ ¬c := by
  simp [Kept, h]

/-- A value is no list of names if one of the two rules on it alone is broken. -/
theorem toNames_ofJson_eq_error_iff :
    (Argument.ofJson (args.get kind)).toNames kind = .error err ↔
      (list kind).Broken args err ∨ ((list kind).Kept args ∧ (elements kind).Broken args err) := by
  by_cases hlist : ∃ items, args.get kind = .array items
  · obtain ⟨items, hitems⟩ := hlist
    have hkept : (list kind).Kept args := fun e h => h.1 items hitems
    rw [or_iff_right (hkept err), and_iff_right hkept, hitems,
      Argument.toNames_ofJson_array_eq_error_iff]
    simp [Broken, hitems]
  · have hother : ∀ items, args.get kind ≠ .array items := not_exists.mp hlist
    have hkept : ¬(list kind).Kept args := fun h => h _ ⟨hother, rfl⟩
    rw [Argument.toNames_ofJson_of_not_array hother, or_iff_left fun h => hkept h.1,
      Except.error.injEq, eq_comm]
    exact (and_iff_right hother).symm

/-- Where both rules on one value are kept, what comes after them may speak of its names. -/
theorem toNames_ofJson_iff (kind : DepKind) {Q : List String → Prop} {R : Prop}
    (hR : ∀ ns, args.get kind = .strings ns → (Q ns ↔ R)) :
    ((Argument.ofJson (args.get kind)).toNames kind = .error err ∨
        ∃ ns, (Argument.ofJson (args.get kind)).toNames kind = .ok ns ∧ Q ns) ↔
      (list kind).Broken args err ∨ ((list kind).Kept args ∧
        ((elements kind).Broken args err ∨ ((elements kind).Kept args ∧ R))) := by
  rw [and_or_left, ← or_assoc, ← toNames_ofJson_eq_error_iff]
  apply or_congr_right
  cases hnames : (Argument.ofJson (args.get kind)).toNames kind with
  | error e =>
      simp only [reduceCtorEq, false_and, exists_false, false_iff]
      rintro ⟨hlist, helements, _⟩
      rcases toNames_ofJson_eq_error_iff.mp hnames with h | ⟨_, h⟩
      · exact hlist e h
      · exact helements e h
  | ok ns =>
      have hstrings : args.get kind = .strings ns :=
        Argument.ofJson_eq_names_iff.mp (Argument.toNames_eq_ok_iff.mp hnames)
      have hno : ∀ e, ¬((list kind).Broken args e ∨
          ((list kind).Kept args ∧ (elements kind).Broken args e)) := by
        intro e he
        rw [← toNames_ofJson_eq_error_iff, hnames] at he
        cases he
      have hlist : (list kind).Kept args := fun e he => hno e (Or.inl he)
      have helements : (elements kind).Kept args := fun e he => hno e (Or.inr ⟨hlist, he⟩)
      simp only [Except.ok.injEq, exists_eq_left', hlist, helements, true_and]
      exact hR ns hstrings

/-- Two values are a declaration by their shapes alone: both are absent, or one claims every
repository and the other is an empty list. -/
def Settled (args : PerKind Json) : Prop :=
  (args.regular = .null ∧ args.dev = .null) ∨
    (args.regular = .string "all" ∧ args.dev = .array []) ∨
    (args.regular = .array [] ∧ args.dev = .string "all")

theorem ofJson_eq_all_iff : Argument.ofJson x = .all ↔ x = .string "all" :=
  Argument.ofJson_eq_text_iff

theorem ofJson_eq_empty_iff : Argument.ofJson x = .names [] ↔ x = .array [] :=
  Argument.ofJson_eq_names_iff

theorem sibling_broken_iff (hs : ¬Settled args) : sibling.Broken args err ↔
    (Argument.ofJson args.regular = .all ∨ Argument.ofJson args.dev = .all) ∧
      err = .allWithSibling := by
  simp only [Broken, ofJson_eq_all_iff]
  apply and_congr_left
  intro _
  constructor
  · intro h
    exact h.imp And.left And.left
  · intro h
    rcases h with hregular | hdev
    · exact Or.inl ⟨hregular, fun hdev => hs (Or.inr (Or.inl ⟨hregular, hdev⟩))⟩
    · exact Or.inr ⟨hdev, fun hregular => hs (Or.inr (Or.inr ⟨hregular, hdev⟩))⟩

theorem text_broken_iff
    (hall : ¬(Argument.ofJson args.regular = .all ∨ Argument.ofJson args.dev = .all)) :
    text.Broken args err ↔
      ((Argument.ofJson args.regular).isText = true ∨ (Argument.ofJson args.dev).isText = true) ∧
        err = .unexpectedText := by
  simp only [ofJson_eq_all_iff, not_or] at hall
  simp only [Broken, Argument.isText_ofJson_iff]
  apply and_congr_left
  intro _
  constructor
  · rintro ⟨s, _, h⟩
    exact h.imp (fun hregular => ⟨s, hregular⟩) fun hdev => ⟨s, hdev⟩
  · intro h
    rcases h with ⟨s, hregular⟩ | ⟨s, hdev⟩
    · refine ⟨s, ?_, Or.inl hregular⟩
      intro hs
      exact hall.1 (hs ▸ hregular)
    · refine ⟨s, ?_, Or.inr hdev⟩
      intro hs
      exact hall.2 (hs ▸ hdev)

theorem pairing_broken_iff (hs : ¬Settled args) : pairing.Broken args err ↔
    (Argument.ofJson args.regular = .omitted ∨ Argument.ofJson args.dev = .omitted) ∧
      err = .halfOmitted := by
  simp only [Broken, Argument.ofJson_eq_omitted_iff]
  apply and_congr_left
  intro _
  constructor
  · intro h
    exact h.imp And.left And.right
  · intro h
    rcases h with hregular | hdev
    · exact Or.inl ⟨hregular, fun hdev => hs (Or.inl ⟨hregular, hdev⟩)⟩
    · exact Or.inr ⟨fun hregular => hs (Or.inl ⟨hregular, hdev⟩), hdev⟩

end ShapeRule

namespace Declaration

open ShapeRule

variable {args : PerKind Json} {flag : Bool}

theorem validate_eq_error_iff {deps devDeps : Argument} :
    validate deps devDeps flag = .error err ↔ opinionOf deps devDeps = .error err := by
  simp [validate, Except.bind_eq_error_iff, pure, Except.pure]

/-- Where two values are not settled, the earliest broken rule is told, and without one the lists are
looked at. -/
theorem opinionOf_ofJson_eq_error_iff (hs : ¬Settled args) :
    opinionOf (.ofJson args.regular) (.ofJson args.dev) = .error err ↔
      FirstBroken args inOrder err ∨ ((∀ r ∈ inOrder, r.Kept args) ∧
        ∃ regular, args.regular = .strings regular ∧ ∃ dev, args.dev = .strings dev ∧
          DirectDeps.ofLists regular dev = .error err) := by
  have hnone : ¬(Argument.ofJson args.regular = .omitted ∧ Argument.ofJson args.dev = .omitted) := by
    simp only [Argument.ofJson_eq_omitted_iff]
    exact fun h => hs (Or.inl h)
  have hregular : ¬(Argument.ofJson args.regular = .all ∧ Argument.ofJson args.dev = .names []) := by
    rw [ofJson_eq_all_iff, ofJson_eq_empty_iff]
    exact fun h => hs (Or.inr (Or.inl h))
  have hdev : ¬(Argument.ofJson args.dev = .all ∧ Argument.ofJson args.regular = .names []) := by
    rw [ofJson_eq_all_iff, ofJson_eq_empty_iff]
    exact fun h => hs (Or.inr (Or.inr h.symm))
  simp only [inOrder, firstBroken_or_kept_cons_iff, firstBroken_or_kept_nil_iff]
  rw [opinionOf, if_neg hnone, if_neg hregular, if_neg hdev]
  -- Each test of the two arguments is a rule on the values, once the rules before it are kept.
  rw [Except.ite_error_eq_error_iff, sibling_broken_iff hs,
    kept_of_broken_iff fun _ => sibling_broken_iff hs]
  apply or_congr_right
  apply and_congr_right
  intro hall
  rw [Except.ite_error_eq_error_iff, text_broken_iff hall,
    kept_of_broken_iff fun _ => text_broken_iff hall]
  apply or_congr_right
  apply and_congr_right
  intro _
  rw [Except.ite_error_eq_error_iff, pairing_broken_iff hs,
    kept_of_broken_iff fun _ => pairing_broken_iff hs]
  apply or_congr_right
  apply and_congr_right
  intro _
  rw [Except.bind_eq_error_iff]
  apply toNames_ofJson_iff .regular
  intro regular hregular
  rw [Except.bind_eq_error_iff]
  apply toNames_ofJson_iff .dev
  intro dev hdev
  rw [PerKind.get_regular] at hregular
  rw [PerKind.get_dev] at hdev
  simp only [Except.bind_eq_error_iff, hregular, hdev, Argument.strings_inj, exists_eq_left', pure,
    Except.pure, reduceCtorEq, and_false, exists_false, or_false]

/-- Two values are accepted if their shapes alone make a declaration, or if they are lists of names
that may stand together. -/
theorem exists_validate_ofJson_iff (args : PerKind Json) (flag : Bool) :
    (∃ d, validate (.ofJson args.regular) (.ofJson args.dev) flag = .ok d) ↔
      Settled args ∨ ∃ regular dev, args.regular = .strings regular ∧ args.dev = .strings dev ∧
        Compatible regular dev := by
  simp only [validate_eq_ok_iff, opinionOf_eq_ok_iff, Argument.ofJson_eq_omitted_iff,
    Argument.ofJson_eq_names_iff, ofJson_eq_all_iff]
  constructor
  · rintro ⟨d, h, _⟩
    rcases h with ⟨hr, hd, -⟩ | ⟨hr, hd, -⟩ | ⟨hr, hd, -⟩ | ⟨lists, hr, hd, -⟩
    · exact Or.inl (Or.inl ⟨hr, hd⟩)
    · exact Or.inl (Or.inr (Or.inl ⟨hr, hd⟩))
    · exact Or.inl (Or.inr (Or.inr ⟨hr, hd⟩))
    · exact Or.inr ⟨_, _, hr, hd, lists.compatible⟩
  · intro h
    rcases h with (⟨hr, hd⟩ | ⟨hr, hd⟩ | ⟨hr, hd⟩) | ⟨regular, dev, hr, hd, hc⟩
    · exact ⟨⟨.none, flag⟩, Or.inl ⟨hr, hd, rfl⟩, rfl⟩
    · exact ⟨⟨.all .regular, flag⟩, Or.inr (Or.inl ⟨hr, hd, rfl⟩), rfl⟩
    · exact ⟨⟨.all .dev, flag⟩, Or.inr (Or.inr (Or.inl ⟨hr, hd, rfl⟩)), rfl⟩
    · exact ⟨⟨.listed (.ofCompatible hc), flag⟩, Or.inr (Or.inr (Or.inr ⟨_, hr, hd, rfl⟩)), rfl⟩

/-- Two values are refused unless their shapes make a declaration, and then the earliest broken rule
is told. If no rule is broken, the values are lists of names and an entry of them is told. -/
theorem validate_ofJson_eq_error_iff (args : PerKind Json) :
    validate (.ofJson args.regular) (.ofJson args.dev) flag = .error err ↔
      ¬Settled args ∧ (FirstBroken args inOrder err ∨
        ((∀ r ∈ inOrder, r.Kept args) ∧ err.IsEntryFault ∧
          ∃ regular dev, args.regular = .strings regular ∧ args.dev = .strings dev ∧
            DirectDeps.ofLists regular dev = .error err)) := by
  by_cases hs : Settled args
  · obtain ⟨d, hd⟩ := (exists_validate_ofJson_iff args flag).mpr (Or.inl hs)
    simp [hs, hd]
  · rw [validate_eq_error_iff, opinionOf_ofJson_eq_error_iff hs, and_iff_right hs]
    apply or_congr_right
    apply and_congr_right
    intro _
    constructor
    · rintro ⟨regular, hr, dev, hd, hlists⟩
      exact ⟨DirectDeps.isEntryFault_of_ofLists hlists, regular, dev, hr, hd, hlists⟩
    · rintro ⟨_, regular, dev, hr, hd, hlists⟩
      exact ⟨regular, hr, dev, hd, hlists⟩

/-- An entry is told only where every rule on shapes is kept. -/
theorem kept_of_isEntryFault (args : PerKind Json)
    (h : validate (.ofJson args.regular) (.ofJson args.dev) flag = .error err)
    (hentry : err.IsEntryFault) : ¬Settled args ∧ ∀ r ∈ inOrder, r.Kept args := by
  obtain ⟨hs, ⟨_, rule, _, -, hbroken, -⟩ | ⟨hkept, -⟩⟩ := (validate_ofJson_eq_error_iff args).mp h
  · exact absurd hentry (not_isEntryFault_of_broken hbroken)
  · exact ⟨hs, hkept⟩

/-- Two values of any shape are accepted if both are absent, if one claims every repository and the
other is an empty list, or if both are lists of names that may stand together. Otherwise the
earliest broken rule on shapes is told, and a fault of an entry only where every rule is kept. Types
are told by names of their own. -/
theorem validate_ofJson (v w : Json) (flag : Bool) :
    ((∃ d, validate (.ofJson v) (.ofJson w) flag = .ok d) ↔
        Settled ⟨v, w⟩ ∨ ∃ regular dev, v = .strings regular ∧ w = .strings dev ∧
          Compatible regular dev) ∧
      (∀ err, validate (.ofJson v) (.ofJson w) flag = .error err ↔
        ¬Settled ⟨v, w⟩ ∧ (FirstBroken ⟨v, w⟩ inOrder err ∨
          ((∀ r ∈ inOrder, r.Kept ⟨v, w⟩) ∧ err.IsEntryFault ∧
            ∃ regular dev, v = .strings regular ∧ w = .strings dev ∧
              DirectDeps.ofLists regular dev = .error err))) ∧
      (∀ err, validate (.ofJson v) (.ofJson w) flag = .error err → err.IsEntryFault →
        ¬Settled ⟨v, w⟩ ∧ ∀ r ∈ inOrder, r.Kept ⟨v, w⟩) ∧
      ∀ x : Json,
        (x.valueType.name = "NoneType" ↔ x = .null) ∧
          (x.valueType.name = "bool" ↔ ∃ b, x = .boolean b) ∧
          (x.valueType.name = "int" ↔ ∃ n, x = .integer n) ∧
          (x.valueType.name = "float" ↔ ∃ negative y, x = .float negative y) ∧
          (x.valueType.name = "string" ↔ ∃ s, x = .string s) ∧
          (x.valueType.name = "list" ↔ ∃ items, x = .array items) ∧
          (x.valueType.name = "dict" ↔ ∃ members, x = .object members) := by
  refine ⟨?_, ?_, ?_, Json.valueType_name⟩
  · exact exists_validate_ofJson_iff ⟨v, w⟩ flag
  · intro err
    exact validate_ofJson_eq_error_iff ⟨v, w⟩
  · intro err
    exact kept_of_isEntryFault ⟨v, w⟩

/-- An element that is no string is told before an invalid name that stands before it, and an invalid
name where the shapes are in order. -/
theorem validate_ofJson_of_invalidName :
    validate (.ofJson (.array [.string "_x", .boolean true])) (.ofJson (.object [])) true =
        .error (.notString .regular 1 .bool) ∧
      validate (.ofJson (.strings ["_x"])) (.ofJson (.strings [])) true =
        .error (.invalidName .regular "_x") ∧
      ∀ r ∈ inOrder, r.Kept ⟨.strings ["_x"], .strings []⟩ := by
  have hshape : FirstNonString [.string "_x", .boolean true] 1 (.boolean true) :=
    firstNonString_succ_iff.mpr ⟨⟨_, rfl⟩, firstNonString_zero_iff.mpr ⟨rfl, by simp⟩⟩
  have hname : validate (.ofJson (.strings ["_x"])) (.ofJson (.strings [])) true =
      .error (.invalidName .regular "_x") := by rfl
  refine ⟨?_, hname, ((validate_ofJson _ _ _).2.2.1 _ hname trivial).2⟩
  apply ((validate_ofJson _ _ _).2.1 _).mpr
  refine ⟨by simp [Settled], Or.inl ⟨[.sibling, .text, .pairing, .list .regular],
    .elements .regular, [.list .dev, .elements .dev], rfl, ⟨_, 1, _, rfl, hshape, rfl⟩, ?_⟩⟩
  simp [Kept, Broken]

end Declaration

end ImportRepair
