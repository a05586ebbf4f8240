import ImportRepair.Declaration.Expected
import ImportRepair.Proofs.Except

/-!
# What a declaration may expect

Expected imports were generated, and no repository is expected as both kinds. The second fact comes
from the validation of declarations, the first from the comparison with what was generated. Lists
with names that were not generated are refused, a dev list before a regular one.
-/

namespace ImportRepair

theorem DirectDeps.get_disjoint (deps : DirectDeps) {k k' : DepKind} {n : String}
    (h : n ∈ deps.get k) (h' : n ∈ deps.get k') : k = k' := by
  cases k <;> cases k'
  · rfl
  · exact absurd h (deps.disjoint n h')
  · exact absurd h' (deps.disjoint n h)
  · rfl

/-- A list is refused for the names in it that were not generated, all of which are told. -/
theorem requireGenerated_eq_error_iff {generated : RepoSet} {kind : DepKind} {names : List String}
    {err : RepairError} :
    requireGenerated generated kind names = .error err ↔
      (∃ n ∈ names, n ∉ generated) ∧
        err = .unknownRepos kind (names.filter fun n => decide (n ∉ generated)) := by
  simp only [requireGenerated]
  split
  · rename_i h
    have hall : ¬∃ n ∈ names, n ∉ generated := by
      simpa [List.filter_eq_nil_iff] using h
    simp [hall]
  · rename_i h
    have hex : ∃ n ∈ names, n ∉ generated := by
      simpa [List.filter_eq_nil_iff] using h
    simp [hex, eq_comm]

namespace Declaration

variable {d : Declaration} {generated : RepoSet} {e : PerKind RepoSet}

theorem expected_of_none (h : d.opinion = .none) : d.expected generated = .ok none := by
  simp only [expected, expectedOf, h]
  rfl

theorem expected_of_all {kind : DepKind} (h : d.opinion = .all kind) :
    d.expected generated = .ok (some (.of fun k => if k = kind then generated else ∅)) := by
  simp only [expected, expectedOf, h]
  rfl

/-- Listed imports are expected once the lists have stood the comparison. -/
theorem expected_of_listed {deps : DirectDeps} (h : d.opinion = .listed deps) :
    d.expected generated =
      (requireGenerated generated .dev deps.dev >>= fun _ =>
        requireGenerated generated .regular deps.regular >>= fun _ =>
          .ok (some (.of fun k => RepoSet.ofList (deps.get k)))) := by
  simp only [expected, expectedOf, h, DirectDeps.get]
  cases requireGenerated generated .dev deps.dev with
  | error err => rfl
  | ok _ =>
      cases requireGenerated generated .regular deps.regular with
      | error err => rfl
      | ok _ => rfl

/-- Imports are expected by a claim of every repository or by lists of generated repositories. -/
theorem expected_eq_some_iff :
    d.expected generated = .ok (some e) ↔
      (∃ kind, d.opinion = .all kind ∧ e = .of fun k => if k = kind then generated else ∅) ∨
      (∃ deps, d.opinion = .listed deps ∧ (∀ k, ∀ n ∈ deps.get k, n ∈ generated) ∧
        e = .of fun k => RepoSet.ofList (deps.get k)) := by
  cases ho : d.opinion with
  | none => simp [expected_of_none ho]
  | all kind =>
      simp [expected_of_all ho, eq_comm]
  | listed deps =>
      simp only [expected_of_listed ho, Except.bind_eq_ok_iff]
      constructor
      · rintro ⟨⟨⟩, hdev, ⟨⟩, hregular, he⟩
        refine Or.inr ⟨deps, rfl, ?_, ?_⟩
        · intro k
          cases k
          · exact requireGenerated_eq_ok_iff.mp hregular
          · exact requireGenerated_eq_ok_iff.mp hdev
        · exact (Option.some.inj (Except.ok.inj he)).symm
      · rintro (⟨kind, hk, -⟩ | ⟨deps', hd, hg, rfl⟩)
        · cases hk
        · cases hd
          exact ⟨(), requireGenerated_eq_ok_iff.mpr (hg .dev),
            (), requireGenerated_eq_ok_iff.mpr (hg .regular), rfl⟩

/-- Nothing is said of either kind just when the declaration has no opinion. -/
theorem expected_eq_none_iff : d.expected generated = .ok none ↔ d.opinion = .none := by
  cases ho : d.opinion with
  | none => simp [expected_of_none ho]
  | all kind => simp [expected_of_all ho]
  | listed deps => simp [expected_of_listed ho, Except.bind_eq_ok_iff]

/-- A declaration is refused for a list with names that were not generated, and for nothing else. A
regular list is looked at only if there is no such name in the dev list. -/
theorem expected_eq_error_iff {err : RepairError} :
    d.expected generated = .error err ↔
      ∃ deps, d.opinion = .listed deps ∧
        (((∃ n ∈ deps.dev, n ∉ generated) ∧
            err = .unknownRepos .dev (deps.dev.filter fun n => decide (n ∉ generated))) ∨
          ((∀ n ∈ deps.dev, n ∈ generated) ∧ (∃ n ∈ deps.regular, n ∉ generated) ∧
            err = .unknownRepos .regular
              (deps.regular.filter fun n => decide (n ∉ generated)))) := by
  cases ho : d.opinion with
  | none => simp [expected_of_none ho]
  | all kind => simp [expected_of_all ho]
  | listed deps =>
      simp only [expected_of_listed ho, Except.bind_eq_error_iff, requireGenerated_eq_error_iff,
        Opinion.listed.injEq, exists_eq_left', reduceCtorEq, and_false, exists_false, or_false]
      constructor
      · rintro (hdev | ⟨⟨⟩, hdev, hregular⟩)
        · exact Or.inl hdev
        · exact Or.inr ⟨requireGenerated_eq_ok_iff.mp hdev, hregular⟩
      · rintro (hdev | ⟨hdev, hregular⟩)
        · exact Or.inl hdev
        · exact Or.inr ⟨(), requireGenerated_eq_ok_iff.mpr hdev, hregular⟩

/-- Expected repositories were generated. -/
theorem expected_subset (he : d.expected generated = .ok (some e)) {k : DepKind} {n : String}
    (hn : n ∈ e.get k) : n ∈ generated := by
  rcases expected_eq_some_iff.mp he with ⟨kind, -, rfl⟩ | ⟨deps, -, hg, rfl⟩
  · rw [PerKind.get_of] at hn
    split at hn
    · exact hn
    · exact absurd hn (RepoSet.not_mem_empty n)
  · rw [PerKind.get_of, RepoSet.mem_ofList] at hn
    exact hg k n hn

/-- A repository is expected as one kind only. -/
theorem expected_disjoint (he : d.expected generated = .ok (some e)) {k k' : DepKind} {n : String}
    (hn : n ∈ e.get k) (hn' : n ∈ e.get k') : k = k' := by
  rcases expected_eq_some_iff.mp he with ⟨kind, -, rfl⟩ | ⟨deps, -, -, rfl⟩
  · simp only [PerKind.get_of] at hn hn'
    split at hn
    · split at hn'
      · simp [*]
      · exact absurd hn' (RepoSet.not_mem_empty n)
    · exact absurd hn (RepoSet.not_mem_empty n)
  · simp only [PerKind.get_of, RepoSet.mem_ofList] at hn hn'
    exact deps.get_disjoint hn hn'

end Declaration

end ImportRepair
