import ImportRepair.Evaluation
import ImportRepair.Proofs.PlannedEdits

/-!
# Outcomes of a repair

A repair is refused for names that were not generated or for want of a proxy, in a fixed order of
these causes, and otherwise it depends on the imports alone whether there is one. `repair_outcome`
says when each outcome occurs, by the lists of a declaration, the generated repositories and the
proxies. The failures that stand for a broken invariant do not occur at all
(`not_internal_of_error`).

## Implementation notes

`Declaration.CallsFor` tells expected imports by their members, apart from the order in which lists
are looked at. It holds for some imports just when every listed name was generated.
-/

namespace ImportRepair

namespace Declaration

/-- A list of the declaration has a name that was not generated. -/
def ListsUnknown (d : Declaration) (generated : RepoSet) (k : DepKind) : Prop :=
  ∃ deps, d.opinion = .listed deps ∧ ∃ n ∈ deps.get k, n ∉ generated

/-- The imports that a declaration claims or lists, where all listed names were generated. -/
def CallsFor (d : Declaration) (generated : RepoSet) (e : PerKind RepoSet) : Prop :=
  match d.opinion with
  | .none => False
  | .all kind => ∀ k n, n ∈ e.get k ↔ k = kind ∧ n ∈ generated
  | .listed deps =>
    (∀ k, ∀ n ∈ deps.get k, n ∈ generated) ∧ ∀ k n, n ∈ e.get k ↔ n ∈ deps.get k

theorem expected_eq_some_iff_callsFor {d : Declaration} {generated : RepoSet}
    {e : PerKind RepoSet} : d.expected generated = .ok (some e) ↔ d.CallsFor generated e := by
  rw [expected_eq_some_iff]
  cases ho : d.opinion with
  | none => simp [CallsFor, ho]
  | all kind =>
      simp only [CallsFor, ho, Opinion.all.injEq, exists_eq_left', reduceCtorEq, false_and,
        exists_false, or_false]
      constructor
      · rintro rfl k n
        rw [PerKind.get_of]
        split <;> simp [*]
      · intro h
        ext k n
        rw [h, PerKind.get_of]
        split <;> simp [*]
  | listed deps =>
      simp only [CallsFor, ho, Opinion.listed.injEq, exists_eq_left', reduceCtorEq, false_and,
        exists_false, false_or]
      apply and_congr_right
      intro _
      constructor
      · rintro rfl k n
        rw [PerKind.get_of, RepoSet.mem_ofList]
      · intro h
        ext k n
        rw [h, PerKind.get_of, RepoSet.mem_ofList]

end Declaration

namespace Usage

variable {u : Usage} {e : PerKind RepoSet}

/-- Nothing has to change just when the expected imports are the actual ones. -/
theorem missing_isEmpty_iff_imported_eq : (u.missing e).isEmpty = true ↔ u.imported = e := by
  simp only [ImportDiff.isEmpty_iff, RepoSet.eq_empty_iff, mem_missing_add, mem_missing_remove,
    not_and, Decidable.not_not]
  constructor
  · intro h
    ext k n
    exact ⟨(h k).2 n, (h k).1 n⟩
  · rintro rfl k
    exact ⟨fun _ hn => hn, fun _ hn => hn⟩

/-- What is imported is imported through a proxy, so no proxy is wanting. -/
theorem covers_imported (u : Usage) : u.Covers u.imported := by
  intro k
  by_cases hk : u.has k = true
  · exact Or.inr hk
  · left
    apply RepoSet.eq_empty_iff.mpr
    intro n hn
    obtain ⟨p, hp, hkind, -⟩ := mem_imported.mp hn
    exact hk (List.any_eq_true.mpr ⟨p, hp, by simp [hkind]⟩)

end Usage

namespace Reconciliation

variable {u : Usage} {generated : RepoSet} {e : PerKind RepoSet} {r : Reconciliation}

/-- A usage is refused for the first kind of which imports are expected and no proxy is. -/
theorem make_eq_error_iff {err : RepairError} :
    make u generated e = .error err ↔
      (e.regular ≠ ∅ ∧ u.has .regular = false ∧ err = .unusedKind .regular) ∨
        ((e.regular = ∅ ∨ u.has .regular = true) ∧ e.dev ≠ ∅ ∧ u.has .dev = false ∧
          err = .unusedKind .dev) := by
  rw [make]
  split
  · rename_i hregular
    constructor
    · intro h
      exact Or.inl ⟨hregular.1, hregular.2, (Except.error.inj h).symm⟩
    · rintro (⟨-, -, rfl⟩ | ⟨hempty | hhas, -⟩)
      · rfl
      · exact absurd hempty hregular.1
      · exact absurd hregular.2 (by simp [hhas])
  · rename_i hregular
    split
    · rename_i hdev
      constructor
      · intro h
        have hcovered : e.regular = ∅ ∨ u.has .regular = true := by grind
        exact Or.inr ⟨hcovered, hdev.1, hdev.2, (Except.error.inj h).symm⟩
      · rintro (⟨hne, hhas, -⟩ | ⟨-, -, -, rfl⟩)
        · exact absurd ⟨hne, hhas⟩ hregular
        · rfl
    · rename_i hdev
      simp only [reduceCtorEq, false_iff]
      rintro (⟨hne, hhas, -⟩ | ⟨-, hne, hhas, -⟩)
      · exact hregular ⟨hne, hhas⟩
      · exact hdev ⟨hne, hhas⟩

/-- A usage with the needed proxies is left as it is if its imports are the expected ones. -/
theorem repair?_eq_none_iff (hc : u.Covers e) :
    (⟨u, generated, e⟩ : Reconciliation).repair? = .ok none ↔ u.imported = e := by
  rw [← Usage.missing_isEmpty_iff_imported_eq]
  constructor
  · intro h
    apply Decidable.byContradiction
    intro hm
    obtain ⟨f, hf, -⟩ := exists_repair? generated hc hm
    rw [h] at hf
    cases hf
  · intro hm
    have hdiff : (⟨u, generated, e⟩ : Reconciliation).diff.isEmpty = true := hm
    exact if_pos hdiff

/-- A usage with the needed proxies is repaired if its imports are others than the expected ones. -/
theorem exists_repair_iff (generated : RepoSet) (hc : u.Covers e) :
    (∃ f, (⟨u, generated, e⟩ : Reconciliation).repair? = .ok (some f)) ↔ u.imported ≠ e := by
  constructor
  · rintro ⟨f, hf⟩ heq
    rw [(repair?_eq_none_iff hc).mpr heq] at hf
    cases hf
  · intro hne
    obtain ⟨f, hf, -⟩ := exists_repair? generated hc
      (fun hm => hne (Usage.missing_isEmpty_iff_imported_eq.mp hm))
    exact ⟨f, hf⟩

/-- A reconciled usage is repaired or needs no repair, whatever is expected of it. -/
theorem repair?_eq_ok_of_make (hr : make u generated e = .ok r) : ∃ x, r.repair? = .ok x := by
  obtain ⟨hc, rfl⟩ := make_eq_ok_iff.mp hr
  by_cases heq : u.imported = e
  · exact ⟨none, (repair?_eq_none_iff hc).mpr heq⟩
  · obtain ⟨f, hf⟩ := (exists_repair_iff generated hc).mpr heq
    exact ⟨some f, hf⟩

/-- A usage is refused for want of a proxy only. -/
theorem eq_unusedKind_of_make {err : RepairError} (h : make u generated e = .error err) :
    ∃ k, err = .unusedKind k := by
  rcases make_eq_error_iff.mp h with ⟨-, -, rfl⟩ | ⟨-, -, -, rfl⟩
  · exact ⟨_, rfl⟩
  · exact ⟨_, rfl⟩

theorem exists_make_eq_error_iff (generated : RepoSet) :
    (∃ err, make u generated e = .error err) ↔ ¬u.Covers e := by
  constructor
  · rintro ⟨err, hmake⟩ hc
    rw [make_eq_ok_iff.mpr ⟨hc, rfl⟩] at hmake
    cases hmake
  · intro hc
    cases hmake : make u generated e with
    | ok r => exact absurd (make_eq_ok_iff.mp hmake).1 hc
    | error err => exact ⟨err, rfl⟩

end Reconciliation

namespace Declaration

variable {d : Declaration} {u : Usage} {generated : RepoSet}

/-- A repair is refused as the declaration is, or as the usage is. -/
theorem repair?_eq_error_iff {err : RepairError} :
    d.repair? u generated = .error err ↔ d.expected generated = .error err ∨
      ∃ e, d.expected generated = .ok (some e) ∧
        Reconciliation.make u generated e = .error err := by
  rw [repair?, Except.bind_eq_error_iff]
  apply or_congr_right
  constructor
  · rintro ⟨_ | e, he, hfail⟩
    · cases hfail
    · refine ⟨e, he, ?_⟩
      rcases Except.bind_eq_error_iff.mp hfail with hmake | ⟨r, hr, hrepair⟩
      · exact hmake
      · -- What was reconciled is not refused any more.
        obtain ⟨x, hx⟩ := Reconciliation.repair?_eq_ok_of_make hr
        rw [hx] at hrepair
        cases hrepair
  · rintro ⟨e, he, hmake⟩
    exact ⟨some e, he, Except.bind_eq_error_iff.mpr (Or.inl hmake)⟩

/-- A repair is decided on if nothing is expected, or nothing is in the way of what is expected. -/
theorem repair?_eq_ok_iff {x : Option Repair} :
    d.repair? u generated = .ok x ↔ (d.opinion = .none ∧ x = none) ∨
      ∃ e, d.expected generated = .ok (some e) ∧ u.Covers e ∧
        (⟨u, generated, e⟩ : Reconciliation).repair? = .ok x := by
  rw [repair?, Except.bind_eq_ok_iff]
  constructor
  · rintro ⟨_ | e, he, h⟩
    · exact Or.inl ⟨expected_eq_none_iff.mp he, (Except.ok.inj h).symm⟩
    · obtain ⟨r, hr, hrepair⟩ := Except.bind_eq_ok_iff.mp h
      obtain ⟨hc, rfl⟩ := Reconciliation.make_eq_ok_iff.mp hr
      exact Or.inr ⟨e, he, hc, hrepair⟩
  · rintro (⟨hnone, rfl⟩ | ⟨e, he, hc, hrepair⟩)
    · exact ⟨none, expected_eq_none_iff.mpr hnone, rfl⟩
    · have hr : Reconciliation.make u generated e = .ok ⟨u, generated, e⟩ :=
        Reconciliation.make_eq_ok_iff.mpr ⟨hc, rfl⟩
      exact ⟨some e, he, Except.bind_eq_ok_iff.mpr ⟨_, hr, hrepair⟩⟩

/-- There is nothing to repair if the declaration has no opinion or the imports are as expected. -/
theorem repair?_eq_none_iff :
    d.repair? u generated = .ok none ↔
      d.opinion = .none ∨ ∃ e, d.expected generated = .ok (some e) ∧ u.imported = e := by
  rw [repair?_eq_ok_iff]
  constructor
  · rintro (⟨hnone, -⟩ | ⟨e, he, hc, hrepair⟩)
    · exact Or.inl hnone
    · exact Or.inr ⟨e, he, (Reconciliation.repair?_eq_none_iff hc).mp hrepair⟩
  · rintro (hnone | ⟨e, he, rfl⟩)
    · exact Or.inl ⟨hnone, rfl⟩
    · have hc := u.covers_imported
      exact Or.inr ⟨_, he, hc, (Reconciliation.repair?_eq_none_iff hc).mpr rfl⟩

/-- A repair is made for a usage with the needed proxies and other than the expected imports. -/
theorem exists_repair_iff :
    (∃ f, d.repair? u generated = .ok (some f)) ↔
      ∃ e, d.expected generated = .ok (some e) ∧ u.Covers e ∧ u.imported ≠ e := by
  constructor
  · rintro ⟨f, hf⟩
    rcases repair?_eq_ok_iff.mp hf with ⟨-, hnone⟩ | ⟨e, he, hc, hrepair⟩
    · cases hnone
    · exact ⟨e, he, hc, (Reconciliation.exists_repair_iff generated hc).mp ⟨f, hrepair⟩⟩
  · rintro ⟨e, he, hc, hne⟩
    obtain ⟨f, hf⟩ := (Reconciliation.exists_repair_iff generated hc).mpr hne
    exact ⟨f, repair?_eq_ok_iff.mpr (Or.inr ⟨e, he, hc, hf⟩)⟩

/-- A declaration is refused for dev names just when one of them was not generated. -/
theorem exists_unknownRepos_dev_iff :
    (∃ names, d.expected generated = .error (.unknownRepos .dev names)) ↔
      d.ListsUnknown generated .dev := by
  simp only [expected_eq_error_iff, ListsUnknown, DirectDeps.get]
  constructor
  · rintro ⟨names, deps, ho, ⟨hdev, -⟩ | ⟨-, -, herr⟩⟩
    · exact ⟨deps, ho, hdev⟩
    · cases herr
  · rintro ⟨deps, ho, hdev⟩
    exact ⟨_, deps, ho, Or.inl ⟨hdev, rfl⟩⟩

/-- Regular names are looked at once all dev names are known to have been generated. -/
theorem exists_unknownRepos_regular_iff :
    (∃ names, d.expected generated = .error (.unknownRepos .regular names)) ↔
      ¬d.ListsUnknown generated .dev ∧ d.ListsUnknown generated .regular := by
  simp only [expected_eq_error_iff, ListsUnknown, DirectDeps.get]
  constructor
  · rintro ⟨names, deps, ho, ⟨-, herr⟩ | ⟨hdev, hregular, -⟩⟩
    · cases herr
    · refine ⟨?_, deps, ho, hregular⟩
      rintro ⟨deps', ho', n, hn, hunknown⟩
      cases ho.symm.trans ho'
      exact hunknown (hdev n hn)
  · rintro ⟨hdev, deps, ho, hregular⟩
    refine ⟨_, deps, ho, Or.inr ⟨?_, hregular, rfl⟩⟩
    intro n hn
    apply Decidable.byContradiction
    intro hunknown
    exact hdev ⟨deps, ho, n, hn, hunknown⟩

/-- A repair is refused for unknown names just as the declaration is. -/
theorem repair?_eq_unknownRepos_iff {k : DepKind} {names : List String} :
    d.repair? u generated = .error (.unknownRepos k names) ↔
      d.expected generated = .error (.unknownRepos k names) := by
  rw [repair?_eq_error_iff]
  apply or_iff_left
  rintro ⟨e, -, hmake⟩
  obtain ⟨_, herr⟩ := Reconciliation.eq_unusedKind_of_make hmake
  cases herr

/-- A repair is refused for want of a proxy just as the usage is. -/
theorem repair?_eq_unusedKind_iff {k : DepKind} :
    d.repair? u generated = .error (.unusedKind k) ↔
      ∃ e, d.CallsFor generated e ∧
        Reconciliation.make u generated e = .error (.unusedKind k) := by
  simp only [repair?_eq_error_iff, expected_eq_some_iff_callsFor]
  apply or_iff_right
  intro h
  obtain ⟨deps, -, ⟨-, herr⟩ | ⟨-, -, herr⟩⟩ := expected_eq_error_iff.mp h
  · cases herr
  · cases herr

/-- A declaration is refused for unknown names only. -/
theorem eq_unknownRepos_of_expected {err : RepairError} (h : d.expected generated = .error err) :
    ∃ k names, err = .unknownRepos k names := by
  obtain ⟨deps, -, ⟨-, rfl⟩ | ⟨-, -, rfl⟩⟩ := expected_eq_error_iff.mp h
  · exact ⟨_, _, rfl⟩
  · exact ⟨_, _, rfl⟩

/-- A repair is refused for unknown names or for want of a proxy, and for nothing else. -/
theorem cause_of_repair?_eq_error {err : RepairError} (h : d.repair? u generated = .error err) :
    ∃ k, (∃ names, err = .unknownRepos k names) ∨ err = .unusedKind k := by
  rcases repair?_eq_error_iff.mp h with he | ⟨e, -, hmake⟩
  · obtain ⟨k, names, rfl⟩ := eq_unknownRepos_of_expected he
    exact ⟨k, Or.inl ⟨names, rfl⟩⟩
  · obtain ⟨k, rfl⟩ := Reconciliation.eq_unusedKind_of_make hmake
    exact ⟨k, Or.inr rfl⟩

/-- The class of a failure tells whether a list or the usage is at fault. -/
theorem exists_failure_iff {c : FailureClass} :
    (∃ err, d.repair? u generated = .error err ∧ err.failureClass = c) ↔
      (c = .unknownRepository ∧ ∃ k, d.ListsUnknown generated k) ∨
        (c = .policyViolation ∧ ∃ e, d.expected generated = .ok (some e) ∧ ¬u.Covers e) := by
  constructor
  · rintro ⟨err, h, rfl⟩
    obtain ⟨k, ⟨names, rfl⟩ | rfl⟩ := cause_of_repair?_eq_error h
    · rw [repair?_eq_unknownRepos_iff] at h
      cases k with
      | regular => exact Or.inl ⟨rfl, _, (exists_unknownRepos_regular_iff.mp ⟨names, h⟩).2⟩
      | dev => exact Or.inl ⟨rfl, _, exists_unknownRepos_dev_iff.mp ⟨names, h⟩⟩
    · obtain ⟨e, he, hmake⟩ := repair?_eq_unusedKind_iff.mp h
      exact Or.inr ⟨rfl, e, expected_eq_some_iff_callsFor.mpr he,
        (Reconciliation.exists_make_eq_error_iff generated).mp ⟨_, hmake⟩⟩
  · rintro (⟨rfl, k, hk⟩ | ⟨rfl, e, he, hc⟩)
    · by_cases hdev : d.ListsUnknown generated .dev
      · obtain ⟨names, h⟩ := exists_unknownRepos_dev_iff.mpr hdev
        exact ⟨_, repair?_eq_unknownRepos_iff.mpr h, rfl⟩
      · have hregular : d.ListsUnknown generated .regular := by
          cases k with
          | regular => exact hk
          | dev => exact absurd hk hdev
        obtain ⟨names, h⟩ := exists_unknownRepos_regular_iff.mpr ⟨hdev, hregular⟩
        exact ⟨_, repair?_eq_unknownRepos_iff.mpr h, rfl⟩
    · obtain ⟨err, hmake⟩ := (Reconciliation.exists_make_eq_error_iff generated).mpr hc
      obtain ⟨k, rfl⟩ := Reconciliation.eq_unusedKind_of_make hmake
      exact ⟨_, repair?_eq_error_iff.mpr (Or.inr ⟨e, he, hmake⟩), rfl⟩

end Declaration

theorem DeclarationError.failureClass_ne_internal (err : DeclarationError) :
    err.failureClass ≠ .internal := by
  cases err <;> simp [failureClass]

/-- The causes of refusal come from the input. -/
theorem RepairError.failureClass_ne_internal_of_cause {err : RepairError}
    (h : ∃ k, (∃ names, err = .unknownRepos k names) ∨ err = .unusedKind k) :
    err.failureClass ≠ .internal := by
  obtain ⟨k, ⟨names, rfl⟩ | rfl⟩ := h
  · simp [failureClass]
  · simp [failureClass]

namespace Evaluation

/-- An evaluation is checked by making the repair that its declaration calls for. -/
theorem check_eq_ok_iff {e : Evaluation} {x : Option Repair} :
    e.check = .ok x ↔
      ∃ d, e.declaration = .ok d ∧ d.repair? e.usage e.generated = .ok x := by
  rw [check]
  cases e.declaration with
  | error err => simp
  | ok d =>
      simp only [Except.ok.injEq, exists_eq_left']
      cases d.repair? e.usage e.generated with
      | error err => simp
      | ok y => simp

/-- An evaluation is refused for its declaration or for want of a repair. -/
theorem check_eq_error_iff {e : Evaluation} {err : CheckError} :
    e.check = .error err ↔
      (∃ cause, e.declaration = .error cause ∧ err = .declaration cause) ∨
        ∃ d cause, e.declaration = .ok d ∧ d.repair? e.usage e.generated = .error cause ∧
          err = .repair cause := by
  rw [check]
  cases e.declaration with
  | error cause => simp [eq_comm]
  | ok d =>
      simp only [reduceCtorEq, false_and, exists_false, false_or, Except.ok.injEq, exists_and_left,
        exists_eq_left']
      cases d.repair? e.usage e.generated with
      | error cause => simp [eq_comm]
      | ok y => simp

/-- No broken invariant is met: not when expected imports are made out, whatever the declaration,
not when a reconciled usage is repaired, whatever is expected of it, and not when an evaluation is
checked. -/
theorem not_internal_of_error :
    (∀ (d : Declaration) (generated : RepoSet) (err : RepairError),
        d.expected generated = .error err → err.failureClass ≠ .internal) ∧
      (∀ (u : Usage) (generated : RepoSet) (e : PerKind RepoSet) (r : Reconciliation),
        Reconciliation.make u generated e = .ok r → ∃ x, r.repair? = .ok x) ∧
      ∀ (e : Evaluation) (err : CheckError),
        e.check = .error err → err.failureClass ≠ .internal := by
  refine ⟨?_, ?_, ?_⟩
  · intro d generated err h
    obtain ⟨k, names, rfl⟩ := Declaration.eq_unknownRepos_of_expected h
    exact RepairError.failureClass_ne_internal_of_cause ⟨k, Or.inl ⟨names, rfl⟩⟩
  · intro u generated e r hr
    exact Reconciliation.repair?_eq_ok_of_make hr
  · intro e err h
    rcases check_eq_error_iff.mp h with ⟨cause, -, rfl⟩ | ⟨d, cause, -, hrepair, rfl⟩
    · exact cause.failureClass_ne_internal
    · exact RepairError.failureClass_ne_internal_of_cause
        (Declaration.cause_of_repair?_eq_error hrepair)

/-- An extension that claims `a` for a root module with no dev proxy to import it. -/
def devClaimEvaluation : Evaluation where
  schema := supportedSchema
  bzlFile := "@ext_mod//:extensions.bzl"
  extensionName := "ext"
  deps := .strings []
  devDeps := .string "all"
  reproducible := true
  generated := .ofList ["a"]
  proxies := [{ path := ⟨"MODULE.bazel"⟩, name := "ext", location := ⟨"MODULE.bazel", 1, 7⟩ }]

theorem not_internal_of_error_of_devClaim :
    (∃ err, mixedDeclaration.expected (.ofList ["a"]) = .error err ∧
        err.failureClass ≠ .internal) ∧
      (∃ r x, Reconciliation.make mixedUsage mixedGenerated ⟨.ofList ["a", "x"], .ofList ["a"]⟩ =
        .ok r ∧ r.repair? = .ok x) ∧
      ∃ err, devClaimEvaluation.check = .error err ∧ err.failureClass ≠ .internal := by
  have hexpected : mixedDeclaration.expected (.ofList ["a"]) =
      .error (.unknownRepos .dev ["c"]) := by rfl
  have hmake : Reconciliation.make mixedUsage mixedGenerated ⟨.ofList ["a", "x"], .ofList ["a"]⟩ =
      .ok ⟨mixedUsage, mixedGenerated, ⟨.ofList ["a", "x"], .ofList ["a"]⟩⟩ :=
    Reconciliation.make_eq_ok_iff.mpr ⟨by decide, rfl⟩
  have hcheck : devClaimEvaluation.check = .error (.repair (.unusedKind .dev)) := by rfl
  obtain ⟨x, hx⟩ := not_internal_of_error.2.1 _ _ _ _ hmake
  exact ⟨⟨_, hexpected, not_internal_of_error.1 _ _ _ hexpected⟩, ⟨_, x, hmake, hx⟩,
    ⟨_, hcheck, not_internal_of_error.2.2 _ _ hcheck⟩⟩

end Evaluation

end ImportRepair
