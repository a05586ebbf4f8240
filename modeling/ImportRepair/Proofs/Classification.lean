import ImportRepair.Proofs.Expected
import ImportRepair.Reconciliation.Basic

/-!
# What a report names

The groups of a report are computed on their own, next to the differences that a repair makes up
for. Both name the same repositories, and no repository is in two groups. This rests on expected
imports being generated and being expected as one kind only.
-/

namespace ImportRepair

theorem Mismatch.mem_all (m : Mismatch) : m ∈ Mismatch.all := by
  cases m <;> decide

/-- The repositories that a difference adds or removes as either kind. -/
def ImportDiff.changed (d : ImportDiff) : RepoSet := d.add.either ∪ d.remove.either

theorem ImportDiff.mem_changed {d : ImportDiff} {n : String} :
    n ∈ d.changed ↔ ∃ k, n ∈ d.add.get k ∨ n ∈ d.remove.get k := by
  simp only [changed, RepoSet.mem_union, PerKind.mem_either, exists_or]

theorem ImportDiff.isEmpty_iff_changed {d : ImportDiff} : d.isEmpty = true ↔ d.changed = ∅ := by
  rw [isEmpty_iff, RepoSet.eq_empty_iff]
  constructor
  · intro h n hn
    obtain ⟨k, hadd | hremove⟩ := mem_changed.mp hn
    · exact RepoSet.ne_empty_of_mem hadd (h k).1
    · exact RepoSet.ne_empty_of_mem hremove (h k).2
  · intro h k
    constructor
    · apply RepoSet.eq_empty_iff.mpr
      intro n hn
      exact h n (mem_changed.mpr ⟨k, Or.inl hn⟩)
    · apply RepoSet.eq_empty_iff.mpr
      intro n hn
      exact h n (mem_changed.mpr ⟨k, Or.inr hn⟩)

/-- The usage has a proxy of every kind of which imports are expected. -/
def Usage.Covers (u : Usage) (e : PerKind RepoSet) : Prop :=
  ∀ k, e.get k = ∅ ∨ u.has k = true

instance (u : Usage) (e : PerKind RepoSet) : Decidable (u.Covers e) :=
  inferInstanceAs (Decidable (∀ k, e.get k = ∅ ∨ u.has k = true))

namespace Reconciliation

/-- The repositories of all groups of a report. -/
def reported (r : Reconciliation) : RepoSet :=
  Mismatch.all.foldr (fun m s => r.mismatch m ∪ s) ∅

theorem mem_reported {r : Reconciliation} {n : String} :
    n ∈ r.reported ↔ ∃ m, n ∈ r.mismatch m := by
  have hfold : ∀ l : List Mismatch,
      n ∈ l.foldr (fun m s => r.mismatch m ∪ s) ∅ ↔ ∃ m ∈ l, n ∈ r.mismatch m := by
    intro l
    induction l with
    | nil => simp
    | cons m l ih => simp [ih]
  simp only [reported, hfold, Mismatch.mem_all, true_and]

/-- A report lists the groups that have repositories. -/
theorem mem_mismatches {r : Reconciliation} {m : Mismatch} {s : RepoSet} :
    (m, s) ∈ r.mismatches ↔ s = r.mismatch m ∧ s ≠ ∅ := by
  simp only [mismatches, List.mem_filter, List.mem_map, Bool.not_eq_true', Prod.mk.injEq,
    Bool.eq_false_iff, ne_eq, RepoSet.isEmpty_iff]
  constructor
  · rintro ⟨⟨m, -, rfl, rfl⟩, hne⟩
    exact ⟨rfl, hne⟩
  · rintro ⟨rfl, hne⟩
    exact ⟨⟨m, m.mem_all, rfl, rfl⟩, hne⟩

theorem mismatches_eq_nil_iff {r : Reconciliation} : r.mismatches = [] ↔ r.reported = ∅ := by
  simp only [List.eq_nil_iff_forall_not_mem, Prod.forall, mem_mismatches, RepoSet.eq_empty_iff,
    mem_reported]
  constructor
  · rintro h n ⟨m, hn⟩
    exact h m _ ⟨rfl, RepoSet.ne_empty_of_mem hn⟩
  · rintro h m _ ⟨rfl, hne⟩
    obtain ⟨n, hn⟩ := RepoSet.exists_mem_of_ne_empty hne
    exact h n ⟨m, hn⟩

/-- The groups that a report lists tell those that it leaves out. -/
theorem mismatches_eq_iff {r₁ r₂ : Reconciliation} :
    r₁.mismatches = r₂.mismatches ↔ ∀ m, r₁.mismatch m = r₂.mismatch m := by
  have hmem : ∀ (r : Reconciliation) m n,
      n ∈ r.mismatch m ↔ ∃ s, (m, s) ∈ r.mismatches ∧ n ∈ s := by
    intro r m n
    simp only [mem_mismatches]
    constructor
    · intro hn
      exact ⟨_, ⟨rfl, RepoSet.ne_empty_of_mem hn⟩, hn⟩
    · rintro ⟨_, ⟨rfl, -⟩, hn⟩
      exact hn
  constructor
  · intro h m
    ext n
    rw [hmem, hmem, h]
  · intro h
    simp only [mismatches, h]

/-- Expected imports were generated, and are expected as one kind only. -/
structure Coherent (r : Reconciliation) : Prop where
  generated : ∀ k, ∀ n ∈ r.expected.get k, n ∈ r.generated
  disjoint : ∀ n ∈ r.expected.regular, n ∉ r.expected.dev

/-- A usage is reconciled if it has a proxy of every kind of which imports are expected. -/
theorem make_eq_ok_iff {usage : Usage} {generated : RepoSet} {e : PerKind RepoSet}
    {r : Reconciliation} :
    make usage generated e = .ok r ↔ usage.Covers e ∧ r = ⟨usage, generated, e⟩ := by
  simp only [Usage.Covers, DepKind.forall_iff, make, PerKind.get_regular, PerKind.get_dev]
  split
  · rename_i h
    simp [h]
  · rename_i hregular
    split
    · rename_i h
      simp [h]
    · rename_i hdev
      grind

/-- A reconciliation with what a declaration expects is coherent. -/
theorem coherent_of_expected {d : Declaration} {usage : Usage} {generated : RepoSet}
    {e : PerKind RepoSet} {r : Reconciliation} (he : d.expected generated = .ok (some e))
    (hr : make usage generated e = .ok r) : r.Coherent := by
  rw [(make_eq_ok_iff.mp hr).2]
  constructor
  · intro k n hn
    exact Declaration.expected_subset he hn
  · intro n hn hn'
    have hregular : n ∈ e.get .regular := hn
    have hdev : n ∈ e.get .dev := hn'
    cases Declaration.expected_disjoint he hregular hdev

variable {r : Reconciliation}

/-- No repository is in two groups. -/
theorem Coherent.mismatch_unique (h : r.Coherent) {m m' : Mismatch} {n : String}
    (hm : n ∈ r.mismatch m) (hm' : n ∈ r.mismatch m') : m = m' := by
  have hregular := h.generated .regular n
  have hdev := h.generated .dev n
  have hdisjoint := h.disjoint n
  cases m <;> cases m' <;> first
    | rfl
    | simp only [mismatch, PerKind.either, RepoSet.mem_union, RepoSet.mem_inter,
        RepoSet.mem_sdiff, PerKind.get_regular, PerKind.get_dev] at *
      grind

/-- A named repository is added as the kind that expects it or removed as the kind that imports
it. -/
theorem Coherent.changed_of_mismatch (h : r.Coherent) {m : Mismatch} {n : String}
    (hm : n ∈ r.mismatch m) : n ∈ r.diff.changed := by
  have hadd : ∀ k, n ∈ r.expected.get k → n ∉ r.actual.get k → n ∈ r.diff.changed := by
    intro k he ha
    apply ImportDiff.mem_changed.mpr
    refine ⟨k, Or.inl ?_⟩
    simp [diff, ImportDiff.between, he, ha]
  have hremove : ∀ k, n ∈ r.actual.get k → n ∉ r.expected.get k → n ∈ r.diff.changed := by
    intro k ha he
    apply ImportDiff.mem_changed.mpr
    refine ⟨k, Or.inr ?_⟩
    simp [diff, ImportDiff.between, he, ha]
  cases m with
  | invalid =>
      simp only [mismatch, RepoSet.mem_sdiff, PerKind.mem_either] at hm
      obtain ⟨⟨k, ha⟩, hg⟩ := hm
      apply hremove k ha
      intro he
      exact hg (h.generated k n he)
  | missing =>
      simp only [mismatch, RepoSet.mem_sdiff, PerKind.mem_either] at hm
      obtain ⟨⟨k, he⟩, ha⟩ := hm
      apply hadd k he
      intro hk
      exact ha ⟨k, hk⟩
  | regularImportOfDev =>
      simp only [mismatch, RepoSet.mem_inter] at hm
      apply hremove .regular hm.2
      intro he
      exact h.disjoint n he hm.1
  | devImportOfRegular =>
      simp only [mismatch, RepoSet.mem_inter] at hm
      apply hremove .dev hm.2
      intro he
      exact h.disjoint n hm.1 he
  | indirect =>
      simp only [mismatch, RepoSet.mem_sdiff, RepoSet.mem_inter, PerKind.mem_either] at hm
      obtain ⟨⟨⟨k, ha⟩, -⟩, he⟩ := hm
      apply hremove k ha
      intro hk
      exact he ⟨k, hk⟩

/-- A repository that is to be added is missing, unless it is imported as the other kind. -/
theorem exists_mismatch_of_add {k : DepKind} {n : String} (he : n ∈ r.expected.get k)
    (ha : n ∉ r.actual.get k) : ∃ m, n ∈ r.mismatch m := by
  by_cases himported : n ∈ r.actual.either
  · obtain ⟨k', hk'⟩ := PerKind.mem_either.mp himported
    cases k <;> cases k'
    · exact absurd hk' ha
    · exact ⟨.devImportOfRegular, RepoSet.mem_inter.mpr ⟨he, hk'⟩⟩
    · exact ⟨.regularImportOfDev, RepoSet.mem_inter.mpr ⟨he, hk'⟩⟩
    · exact absurd hk' ha
  · exact ⟨.missing, RepoSet.mem_sdiff.mpr ⟨PerKind.mem_either.mpr ⟨k, he⟩, himported⟩⟩

/-- A repository that is to be removed was not generated, is expected as the other kind, or is not
expected at all. -/
theorem exists_mismatch_of_remove {k : DepKind} {n : String} (ha : n ∈ r.actual.get k)
    (he : n ∉ r.expected.get k) : ∃ m, n ∈ r.mismatch m := by
  have himported : n ∈ r.actual.either := PerKind.mem_either.mpr ⟨k, ha⟩
  by_cases hg : n ∈ r.generated
  · by_cases hexpected : n ∈ r.expected.either
    · obtain ⟨k', hk'⟩ := PerKind.mem_either.mp hexpected
      cases k <;> cases k'
      · exact absurd hk' he
      · exact ⟨.regularImportOfDev, RepoSet.mem_inter.mpr ⟨hk', ha⟩⟩
      · exact ⟨.devImportOfRegular, RepoSet.mem_inter.mpr ⟨hk', ha⟩⟩
      · exact absurd hk' he
    · exact ⟨.indirect, RepoSet.mem_sdiff.mpr ⟨RepoSet.mem_inter.mpr ⟨himported, hg⟩, hexpected⟩⟩
  · exact ⟨.invalid, RepoSet.mem_sdiff.mpr ⟨himported, hg⟩⟩

/-- The groups name what a repair changes. -/
theorem Coherent.reported_eq_changed (h : r.Coherent) : r.reported = r.diff.changed := by
  ext n
  rw [mem_reported]
  constructor
  · rintro ⟨m, hm⟩
    exact h.changed_of_mismatch hm
  · intro hn
    obtain ⟨k, hadd | hremove⟩ := ImportDiff.mem_changed.mp hn
    · simp only [diff, ImportDiff.between, PerKind.get_of, RepoSet.mem_sdiff] at hadd
      exact exists_mismatch_of_add hadd.1 hadd.2
    · simp only [diff, ImportDiff.between, PerKind.get_of, RepoSet.mem_sdiff] at hremove
      exact exists_mismatch_of_remove hremove.1 hremove.2

/-- A report names each repository that a repair changes, names no other, and names it in one group
alone; so a report is empty just when nothing is to be repaired. -/
theorem report_partitions_changes {d : Declaration} {usage : Usage} {generated : RepoSet}
    {e : PerKind RepoSet} {r : Reconciliation} (he : d.expected generated = .ok (some e))
    (hr : make usage generated e = .ok r) :
    (∀ m m', m ≠ m' → r.mismatch m ∩ r.mismatch m' = ∅) ∧
      (∀ n, (∃ m ∈ Mismatch.all, n ∈ r.mismatch m) ↔
        n ∈ r.diff.add.regular ∪ r.diff.remove.regular ∪ r.diff.add.dev ∪ r.diff.remove.dev) ∧
      (r.mismatches = [] ↔ r.diff.isEmpty = true) := by
  have h := coherent_of_expected he hr
  refine ⟨?_, ?_, ?_⟩
  · intro m m' hne
    apply RepoSet.eq_empty_iff.mpr
    intro n hn
    obtain ⟨hm, hm'⟩ := RepoSet.mem_inter.mp hn
    exact hne (h.mismatch_unique hm hm')
  · intro n
    have hboth : n ∈ r.reported ↔ n ∈ r.diff.changed := by rw [h.reported_eq_changed]
    simp only [mem_reported, ImportDiff.changed, PerKind.either, RepoSet.mem_union] at hboth
    simp only [Mismatch.mem_all, true_and, RepoSet.mem_union, hboth]
    grind
  · calc
      r.mismatches = [] ↔ r.reported = ∅ := mismatches_eq_nil_iff
      _ ↔ r.diff.changed = ∅ := by rw [h.reported_eq_changed]
      _ ↔ r.diff.isEmpty = true := ImportDiff.isEmpty_iff_changed.symm

end Reconciliation

/-- Two regular repositories and a dev one. -/
def mixedDeclaration : Declaration where
  opinion := .listed {
    regular := ["a", "b"]
    dev := ["c"]
    regular_valid := by decide
    dev_valid := by decide
    regular_nodup := by decide
    dev_nodup := by decide
    disjoint := by decide }
  reproducible := false

def mixedGenerated : RepoSet := .ofList ["a", "b", "c", "d", "e"]

def mixedExpected : PerKind RepoSet := ⟨.ofList ["a", "b"], .ofList ["c"]⟩

/-- The proxies of a usage that lacks `a`, has `b` and `c` as the wrong kind, imports `d` under
several aliases, and imports `zz`, which does not exist. -/
def mixedUsage : Usage where
  bzlFile := "@ext_mod//:extensions.bzl"
  extensionName := "ext"
  proxies := [
    { path := ⟨"MODULE.bazel"⟩, name := "ext", location := ⟨"MODULE.bazel", 10, 7⟩
      imports := .ofList [("c", "c"), ("d", "d"), ("my_zz", "zz")] },
    { path := ⟨"MODULE.bazel"⟩, name := "ext_dev", kind := .dev, location := ⟨"MODULE.bazel", 20, 11⟩
      imports := .ofList [("b", "b")] },
    { path := ⟨"sub/extra.bazel"⟩, location := ⟨"sub/extra.bazel", 3, 1⟩
      imports := .ofList [("d", "d"), ("my_d", "d")] },
    { path := ⟨"sub//extra.bazel"⟩, name := "more", location := ⟨"sub/extra.bazel", 8, 1⟩
      imports := .ofList [("b", "d")] }]

theorem mixedDeclaration_expected :
    mixedDeclaration.expected mixedGenerated = .ok (some mixedExpected) := by rfl

namespace Reconciliation

theorem report_partitions_changes_of_mixedUsage :
    mixedDeclaration.expected mixedGenerated = .ok (some mixedExpected) ∧
      ∃ r, make mixedUsage mixedGenerated mixedExpected = .ok r ∧
      (∀ m, r.mismatch m ≠ ∅) ∧
      (∀ m m', m ≠ m' → r.mismatch m ∩ r.mismatch m' = ∅) ∧
      (∀ n, (∃ m ∈ Mismatch.all, n ∈ r.mismatch m) ↔
        n ∈ r.diff.add.regular ∪ r.diff.remove.regular ∪ r.diff.add.dev ∪ r.diff.remove.dev) ∧
      (r.mismatches = [] ↔ r.diff.isEmpty = true) := by
  have hr : make mixedUsage mixedGenerated mixedExpected =
      .ok ⟨mixedUsage, mixedGenerated, mixedExpected⟩ :=
    make_eq_ok_iff.mpr ⟨by decide, rfl⟩
  refine ⟨mixedDeclaration_expected, _, hr, ?_,
    report_partitions_changes mixedDeclaration_expected hr⟩
  intro m
  cases m <;> decide

end Reconciliation

end ImportRepair
