import ImportRepair.Declaration.Record
import ImportRepair.Proofs.Json.Readers

/-!
# Accepted declarations

A declaration is made from two arguments or from a persisted record. `opinionOf_eq_ok_iff` and
`ofRecord_eq_ok_iff` say which of these are accepted and what they stand for. In each way a
declaration gets lists that may stand together, or none (`lists_or_nothing`).

## Implementation notes

`Compatible` is said of two lists of names, not of a declaration: it is what the lists have to be
before anything is made from them.
-/

namespace ImportRepair

/-- Lists of regular and dev names that may stand together in one declaration. -/
structure Compatible (regular dev : List String) : Prop where
  regular_valid : ∀ n ∈ regular, isUserRepoName n = true
  dev_valid : ∀ n ∈ dev, isUserRepoName n = true
  regular_nodup : regular.Nodup
  dev_nodup : dev.Nodup
  disjoint : ∀ n ∈ dev, n ∉ regular

namespace DirectDeps

theorem compatible (deps : DirectDeps) : Compatible deps.regular deps.dev :=
  ⟨deps.regular_valid, deps.dev_valid, deps.regular_nodup, deps.dev_nodup, deps.disjoint⟩

/-- The lists of a declaration that two compatible lists make. -/
def ofCompatible {regular dev : List String} (h : Compatible regular dev) : DirectDeps :=
  ⟨regular, dev, h.regular_valid, h.dev_valid, h.regular_nodup, h.dev_nodup, h.disjoint⟩

/-- The check of two lists gives them back, and passes whatever lists may stand together. -/
theorem ofLists_eq_ok_iff {regular dev : List String} {deps : DirectDeps} :
    ofLists regular dev = .ok deps ↔ deps.regular = regular ∧ deps.dev = dev := by
  rw [ofLists]
  split
  · rename_i err hr
    simp only [reduceCtorEq, false_iff]
    rintro ⟨rfl, -⟩
    have hnone : fault? .regular [] [] deps.regular = none :=
      fault?_eq_none_iff.mpr ⟨deps.regular_valid, deps.regular_nodup, by simp, by simp⟩
    rw [hnone] at hr
    cases hr
  · split
    · rename_i err hd
      simp only [reduceCtorEq, false_iff]
      rintro ⟨rfl, rfl⟩
      have hnone : fault? .dev deps.regular [] deps.dev = none :=
        fault?_eq_none_iff.mpr ⟨deps.dev_valid, deps.dev_nodup, deps.disjoint, by simp⟩
      rw [hnone] at hd
      cases hd
    · obtain ⟨r, d, _, _, _, _, _⟩ := deps
      simp [eq_comm]

end DirectDeps

theorem Argument.toNames_eq_ok_iff {a : Argument} {kind : DepKind} {ns : List String} :
    a.toNames kind = .ok ns ↔ a = .names ns := by
  cases a <;> simp [toNames]

namespace Declaration

/-- Two arguments express an opinion if both are left out, if one claims every repository and the
other is an empty list, or if both are lists that may stand together. -/
theorem opinionOf_eq_ok_iff {deps devDeps : Argument} {o : Opinion} :
    opinionOf deps devDeps = .ok o ↔
      (deps = .omitted ∧ devDeps = .omitted ∧ o = .none) ∨
        (deps = .all ∧ devDeps = .names [] ∧ o = .all .regular) ∨
        (deps = .names [] ∧ devDeps = .all ∧ o = .all .dev) ∨
        ∃ lists : DirectDeps, deps = .names lists.regular ∧ devDeps = .names lists.dev ∧
          o = .listed lists := by
  rw [opinionOf]
  split
  · rename_i h
    simp [h, Argument.all, eq_comm]
  rename_i hnone
  split
  · rename_i h
    simp [h, Argument.all, eq_comm]
  rename_i hregular
  split
  · rename_i h
    simp [h, Argument.all, eq_comm]
  rename_i hdev
  -- Only lists are left to be accepted.
  have hlists : ∀ P : Prop, (deps = .omitted ∧ devDeps = .omitted ∧ o = .none) ∨
      (deps = .all ∧ devDeps = .names [] ∧ o = .all .regular) ∨
      (deps = .names [] ∧ devDeps = .all ∧ o = .all .dev) ∨ P ↔ P := by
    grind
  rw [hlists]
  split
  · rename_i h
    simp only [reduceCtorEq, false_iff]
    rintro ⟨lists, rfl, rfl, -⟩
    simp [Argument.all] at h
  split
  · rename_i h
    simp only [reduceCtorEq, false_iff]
    rintro ⟨lists, rfl, rfl, -⟩
    simp [Argument.isText] at h
  split
  · rename_i h
    simp only [reduceCtorEq, false_iff]
    rintro ⟨lists, rfl, rfl, -⟩
    simp at h
  simp only [Except.bind_eq_ok_iff, Argument.toNames_eq_ok_iff, DirectDeps.ofLists_eq_ok_iff]
  constructor
  · rintro ⟨regular, rfl, dev, rfl, lists, ⟨rfl, rfl⟩, heq⟩
    exact ⟨lists, rfl, rfl, (Except.ok.inj heq).symm⟩
  · rintro ⟨lists, rfl, rfl, rfl⟩
    exact ⟨_, rfl, _, rfl, lists, ⟨rfl, rfl⟩, rfl⟩

theorem validate_eq_ok_iff {deps devDeps : Argument} {flag : Bool} {d : Declaration} :
    validate deps devDeps flag = .ok d ↔
      opinionOf deps devDeps = .ok d.opinion ∧ d.reproducible = flag := by
  rw [validate, Except.bind_eq_ok_iff]
  constructor
  · rintro ⟨o, ho, heq⟩
    cases heq
    exact ⟨ho, rfl⟩
  · rintro ⟨ho, rfl⟩
    exact ⟨_, ho, rfl⟩

/-- The declaration has these two lists, which may stand together, and no claim of every
repository. -/
def Lists (d : Declaration) (regular dev : List String) : Prop :=
  d.regular? = some regular ∧ d.dev? = some dev ∧ d.useAll? = none ∧ Compatible regular dev

/-- The declaration has neither list. -/
def ListsNothing (d : Declaration) : Prop := d.regular? = none ∧ d.dev? = none

theorem lists_of_listed {d : Declaration} {lists : DirectDeps} (h : d.opinion = .listed lists) :
    d.Lists lists.regular lists.dev := by
  simp only [Lists, regular?, dev?, useAll?, h, true_and]
  exact lists.compatible

/-- A declaration without lists has none of either kind. -/
theorem listsNothing_of_opinion {d : Declaration}
    (h : d.opinion = .none ∨ ∃ k, d.opinion = .all k) : d.ListsNothing := by
  rcases h with h | ⟨k, h⟩
  · simp only [ListsNothing, regular?, dev?, h, and_self]
  · simp only [ListsNothing, regular?, dev?, h, and_self]

/-- A valid declaration has the lists that it was made from, or none. -/
theorem lists_or_nothing_of_validate {deps devDeps : Argument} {flag : Bool} {d : Declaration}
    (h : validate deps devDeps flag = .ok d) :
    (∃ regular dev, deps = .names regular ∧ devDeps = .names dev ∧ d.Lists regular dev) ∨
      d.ListsNothing := by
  rcases opinionOf_eq_ok_iff.mp (validate_eq_ok_iff.mp h).1 with
    ⟨-, -, ho⟩ | ⟨-, -, ho⟩ | ⟨-, -, ho⟩ | ⟨lists, hdeps, hdev, ho⟩
  · exact Or.inr (listsNothing_of_opinion (Or.inl ho))
  · exact Or.inr (listsNothing_of_opinion (Or.inr ⟨_, ho⟩))
  · exact Or.inr (listsNothing_of_opinion (Or.inr ⟨_, ho⟩))
  · exact Or.inl ⟨_, _, hdeps, hdev, lists_of_listed ho⟩

end Declaration

namespace DeclarationRecord

/-- A record that stands for a declaration: it says nothing; it has two lists that may stand
together; or a kind claims every repository, has no list of its own and the other kind has no list
or an empty one. -/
def Acceptable (r : DeclarationRecord) : Prop :=
  (r.useAll = none ∧ r.regular = none ∧ r.dev = none) ∨
    (r.useAll = none ∧
      ∃ regular dev, r.regular = some regular ∧ r.dev = some dev ∧ Compatible regular dev) ∨
    (r.useAll = some .regular ∧ r.regular = none ∧ (r.dev = none ∨ r.dev = some [])) ∨
    (r.useAll = some .dev ∧ r.dev = none ∧ (r.regular = none ∨ r.regular = some []))

end DeclarationRecord

theorem Argument.ofOption_eq_omitted_iff {l : Option (List String)} :
    ofOption l = .omitted ↔ l = none := by
  cases l <;> simp [ofOption]

theorem Argument.ofOption_eq_names_iff {l : Option (List String)} {ns : List String} :
    ofOption l = .names ns ↔ l = some ns := by
  cases l <;> simp [ofOption]

theorem Argument.ofOption_ne_all (l : Option (List String)) : ofOption l ≠ .all := by
  cases l <;> simp [ofOption, all]

namespace Declaration

/-- An absent list counts as an empty one beside a claim of every repository. -/
theorem getD_eq_nil_iff {l : Option (List String)} : l.getD [] = [] ↔ l = none ∨ l = some [] := by
  cases l <;> simp

/-- What a record stands for. -/
theorem ofRecord_eq_ok_iff {r : DeclarationRecord} {d : Declaration} :
    ofRecord r = .ok d ↔ d.reproducible = r.reproducible ∧
      ((r.useAll = none ∧ r.regular = none ∧ r.dev = none ∧ d.opinion = .none) ∨
        (r.useAll = none ∧ ∃ lists : DirectDeps, r.regular = some lists.regular ∧
          r.dev = some lists.dev ∧ d.opinion = .listed lists) ∨
        (r.useAll = some .regular ∧ r.regular = none ∧ (r.dev = none ∨ r.dev = some []) ∧
          d.opinion = .all .regular) ∨
        (r.useAll = some .dev ∧ r.dev = none ∧ (r.regular = none ∨ r.regular = some []) ∧
          d.opinion = .all .dev)) := by
  obtain ⟨regular, dev, _ | _ | _, flag⟩ := r
  case none =>
    simp only [ofRecord, validate_eq_ok_iff, opinionOf_eq_ok_iff, Argument.ofOption_eq_omitted_iff,
      Argument.ofOption_eq_names_iff, Argument.ofOption_ne_all, true_and, false_and, reduceCtorEq,
      false_or, or_false, and_comm]
  -- A claim of either kind is put in the place of the list of the kind, which has to be absent.
  all_goals
    simp only [ofRecord]
    split
    · rename_i h
      simp [Option.isSome_iff_ne_none.mp h]
    · rename_i h
      rw [Option.not_isSome_iff_eq_none] at h
      simp [validate_eq_ok_iff, opinionOf_eq_ok_iff, h, getD_eq_nil_iff, Argument.all, and_comm]

/-- A record is accepted if it stands for a declaration. -/
theorem exists_ofRecord_iff {r : DeclarationRecord} :
    (∃ d, ofRecord r = .ok d) ↔ r.Acceptable := by
  simp only [ofRecord_eq_ok_iff, DeclarationRecord.Acceptable]
  constructor
  · rintro ⟨d, -, ⟨hall, hr, hd, -⟩ | ⟨hall, lists, hr, hd, -⟩ | ⟨hall, hr, hd, -⟩ |
      ⟨hall, hd, hr, -⟩⟩
    · exact Or.inl ⟨hall, hr, hd⟩
    · exact Or.inr (Or.inl ⟨hall, _, _, hr, hd, lists.compatible⟩)
    · exact Or.inr (Or.inr (Or.inl ⟨hall, hr, hd⟩))
    · exact Or.inr (Or.inr (Or.inr ⟨hall, hd, hr⟩))
  · rintro (⟨hall, hr, hd⟩ | ⟨hall, regular, dev, hr, hd, hc⟩ | ⟨hall, hr, hd⟩ | ⟨hall, hd, hr⟩)
    · exact ⟨⟨.none, r.reproducible⟩, rfl, Or.inl ⟨hall, hr, hd, rfl⟩⟩
    · exact ⟨⟨.listed (.ofCompatible hc), r.reproducible⟩, rfl,
        Or.inr (Or.inl ⟨hall, _, hr, hd, rfl⟩)⟩
    · exact ⟨⟨.all .regular, r.reproducible⟩, rfl, Or.inr (Or.inr (Or.inl ⟨hall, hr, hd, rfl⟩))⟩
    · exact ⟨⟨.all .dev, r.reproducible⟩, rfl, Or.inr (Or.inr (Or.inr ⟨hall, hd, hr, rfl⟩))⟩

/-- A declaration that was made from a record has its lists, or none. -/
theorem lists_or_nothing_of_ofRecord {r : DeclarationRecord} {d : Declaration}
    (h : ofRecord r = .ok d) :
    (∃ regular dev, r.regular = some regular ∧ r.dev = some dev ∧ d.Lists regular dev) ∨
      d.ListsNothing := by
  rcases (ofRecord_eq_ok_iff.mp h).2 with
    ⟨-, -, -, ho⟩ | ⟨-, lists, hr, hd, ho⟩ | ⟨-, -, -, ho⟩ | ⟨-, -, -, ho⟩
  · exact Or.inr (listsNothing_of_opinion (Or.inl ho))
  · exact Or.inl ⟨_, _, hr, hd, lists_of_listed ho⟩
  · exact Or.inr (listsNothing_of_opinion (Or.inr ⟨_, ho⟩))
  · exact Or.inr (listsNothing_of_opinion (Or.inr ⟨_, ho⟩))

/-- A declaration is loaded from a text if a record is read from it and stands for it. -/
theorem load_eq_ok_iff {text : String} {d : Declaration} :
    load text = .ok d ↔
      ∃ r, Json.Reader.readText DeclarationRecord.reader text = .ok r ∧ ofRecord r = .ok d :=
  Json.Reader.readText_checked_eq_ok_iff

/-- A declaration obtained in any way has two lists that may stand together and no claim of every
repository, or it has no list at all; its lists are those that it was made from. A text is loaded
just when its record stands for a declaration. -/
theorem lists_or_nothing :
    (∀ deps devDeps flag d, validate deps devDeps flag = .ok d →
        (∃ regular dev, deps = .names regular ∧ devDeps = .names dev ∧ d.Lists regular dev) ∨
          d.ListsNothing) ∧
      reproducibleOnly.ListsNothing ∧
      (∀ text d, load text = .ok d →
        ∃ r, Json.Reader.readText DeclarationRecord.reader text = .ok r ∧
          ((∃ regular dev, r.regular = some regular ∧ r.dev = some dev ∧ d.Lists regular dev) ∨
            d.ListsNothing)) ∧
      ∀ text, (∃ d, load text = .ok d) ↔
        ∃ r, Json.Reader.readText DeclarationRecord.reader text = .ok r ∧ r.Acceptable := by
  refine ⟨fun _ _ _ _ => lists_or_nothing_of_validate, listsNothing_of_opinion (Or.inl rfl), ?_, ?_⟩
  · intro text d h
    obtain ⟨r, hr, hd⟩ := load_eq_ok_iff.mp h
    exact ⟨r, hr, lists_or_nothing_of_ofRecord hd⟩
  · intro text
    simp only [load_eq_ok_iff, ← exists_ofRecord_iff]
    constructor
    · rintro ⟨d, r, hr, hd⟩
      exact ⟨r, hr, d, hd⟩
    · rintro ⟨r, hr, d, hd⟩
      exact ⟨d, r, hr, hd⟩

theorem compatible_sampleNames : Compatible ["zeta", "alpha"] ["mid"] :=
  ⟨by decide, by decide, by decide, by decide, by decide⟩

/-- Three names in two lists, the same as a record in the form of an array, and a record that is
refused for an empty list on the side that claims every repository. -/
theorem lists_or_nothing_of_samples :
    (∃ d, validate (.names ["zeta", "alpha"]) (.names ["mid"]) true = .ok d ∧
        d.Lists ["zeta", "alpha"] ["mid"]) ∧
      (∃ d, load "[[\"zeta\", \"alpha\"], [\"mid\"]]" = .ok d ∧
        d.Lists ["zeta", "alpha"] ["mid"]) ∧
      ¬∃ d, load "[null, [], \"dev\"]" = .ok d := by
  have hvalid : validate (.names ["zeta", "alpha"]) (.names ["mid"]) true =
      .ok ⟨.listed (.ofCompatible compatible_sampleNames), true⟩ := by rfl
  have hload : load "[[\"zeta\", \"alpha\"], [\"mid\"]]" =
      .ok ⟨.listed (.ofCompatible compatible_sampleNames), false⟩ := by decide +kernel
  have hrefused : Json.Reader.readText DeclarationRecord.reader "[null, [], \"dev\"]" =
      .ok ⟨none, some [], some .dev, false⟩ := by decide +kernel
  refine ⟨⟨_, hvalid, ?_⟩, ⟨_, hload, ?_⟩, ?_⟩
  · rcases lists_or_nothing.1 _ _ _ _ hvalid with ⟨regular, dev, hr, hd, h⟩ | ⟨hnone, -⟩
    · cases hr
      cases hd
      exact h
    · cases hnone
  · obtain ⟨r, -, ⟨regular, dev, -, -, h⟩ | ⟨hnone, -⟩⟩ := lists_or_nothing.2.2.1 _ _ hload
    · have hr := h.1
      have hd := h.2.1
      cases hr
      cases hd
      exact h
    · cases hnone
  · rw [lists_or_nothing.2.2.2]
    rintro ⟨r, hr, hacceptable⟩
    cases hrefused.symm.trans hr
    simp [DeclarationRecord.Acceptable] at hacceptable

end Declaration

end ImportRepair
