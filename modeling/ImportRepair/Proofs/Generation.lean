import ImportRepair.Proofs.Indifference

/-!
# Further generated repositories

A declaration that lists its repositories calls for the same imports however much is generated, as
long as what it lists is. If an extension comes to generate more, a usage fails as before, needs no
repair as before, or is repaired by the same commands (`repair?_of_more_generated`). The report alone
may change: imports that did not exist and are now generated are told as indirect ones.
-/

namespace ImportRepair

variable {d : Declaration} {deps : DirectDeps} {u : Usage} {generated more : RepoSet}
  {e : PerKind RepoSet}

/-- Listed imports are expected still if more is generated. -/
theorem Declaration.expected_of_more_generated (hlisted : d.opinion = .listed deps)
    (hmore : ∀ n ∈ generated, n ∈ more) (he : d.expected generated = .ok (some e)) :
    d.expected more = .ok (some e) := by
  rw [expected_eq_some_iff] at he ⊢
  rcases he with ⟨kind, hall, -⟩ | ⟨deps', ho, hgenerated, rfl⟩
  · rw [hlisted] at hall
    cases hall
  · exact Or.inr ⟨deps', ho, fun k n hn => hmore n (hgenerated k n hn), rfl⟩

namespace Reconciliation

/-- One report tells as indirect what the other one tells as not generated, and they agree in all
else. -/
structure Moves (r r' : Reconciliation) (moved : RepoSet) : Prop where
  former : ∀ n ∈ moved, n ∈ r.mismatch .invalid
  invalid : r'.mismatch .invalid = r.mismatch .invalid \ moved
  indirect : r'.mismatch .indirect = r.mismatch .indirect ∪ moved
  others : ∀ m, m ≠ .invalid → m ≠ .indirect → r'.mismatch m = r.mismatch m

/-- Imports that come to be generated move from one group to another. -/
theorem moves_of_more_generated (hmore : ∀ n ∈ generated, n ∈ more)
    (hgenerated : ∀ k, ∀ n ∈ e.get k, n ∈ generated) :
    (⟨u, generated, e⟩ : Reconciliation).Moves ⟨u, more, e⟩
      (u.imported.either ∩ (more \ generated)) where
  former := by
    intro n hn
    simp only [RepoSet.mem_inter, RepoSet.mem_sdiff] at hn
    exact RepoSet.mem_sdiff.mpr ⟨hn.1, hn.2.2⟩
  invalid := by
    ext n
    simp only [mismatch, actual, RepoSet.mem_sdiff, RepoSet.mem_inter]
    have h := hmore n
    tauto
  indirect := by
    ext n
    have hexpected : n ∈ e.either → n ∈ generated := by
      intro hn
      obtain ⟨k, hk⟩ := PerKind.mem_either.mp hn
      exact hgenerated k n hk
    simp only [mismatch, actual, RepoSet.mem_union, RepoSet.mem_sdiff, RepoSet.mem_inter]
    have h := hmore n
    tauto
  others := by
    intro m hinvalid hindirect
    cases m <;> first | rfl | contradiction

/-- Reports between which nothing moves are the same. -/
theorem Moves.mismatch_eq {r r' : Reconciliation} (h : r.Moves r' ∅) (m : Mismatch) :
    r'.mismatch m = r.mismatch m := by
  cases m with
  | invalid =>
      rw [h.invalid]
      ext n
      simp
  | indirect =>
      rw [h.indirect]
      ext n
      simp
  | _ => exact h.others _ (by decide) (by decide)

end Reconciliation

/-- What an extension generates beside the repositories that are listed does not change a repair. If
it comes to generate more, a usage with no proxy for expected imports fails in the same way, there is
nothing to repair if there was nothing before, and a repair has the same commands. Its report tells
imports as indirect that were not generated before and are now; without such imports the warning is
the same. -/
theorem Declaration.repair?_of_more_generated (hlisted : d.opinion = .listed deps) (u : Usage)
    (hmore : ∀ n ∈ generated, n ∈ more) :
    (∀ err, err.failureClass = .policyViolation → d.repair? u generated = .error err →
        d.repair? u more = .error err) ∧
      (d.repair? u generated = .ok none → d.repair? u more = .ok none) ∧
      ∀ f, d.repair? u generated = .ok (some f) →
        ∃ f' e, d.repair? u more = .ok (some f') ∧ f'.commands = f.commands ∧
          d.expected generated = .ok (some e) ∧ d.expected more = .ok (some e) ∧
          f.warning.message = (⟨u, generated, e⟩ : Reconciliation).message ∧
          f'.warning.message = (⟨u, more, e⟩ : Reconciliation).message ∧
          (⟨u, generated, e⟩ : Reconciliation).Moves ⟨u, more, e⟩
            (u.imported.either ∩ (more \ generated)) ∧
          (u.imported.either ∩ (more \ generated) = ∅ →
            f'.warning.message = f.warning.message) := by
  refine ⟨?_, ?_, ?_⟩
  · intro err hclass h
    rcases repair?_eq_error_iff.mp h with he | ⟨e, he, hmake⟩
    · obtain ⟨k, names, rfl⟩ := eq_unknownRepos_of_expected he
      cases hclass
    · have he' := expected_of_more_generated hlisted hmore he
      have hmake' : Reconciliation.make u more e = .error err :=
        (Reconciliation.make_eq_error_congr fun _ => rfl).mpr hmake
      exact repair?_eq_error_iff.mpr (Or.inr ⟨e, he', hmake'⟩)
  · intro h
    rcases repair?_eq_none_iff.mp h with hnone | ⟨e, he, heq⟩
    · rw [hlisted] at hnone
      cases hnone
    · exact repair?_eq_none_iff.mpr
        (Or.inr ⟨e, expected_of_more_generated hlisted hmore he, heq⟩)
  · intro f hf
    obtain ⟨e, he, hc, hne⟩ := exists_repair_iff.mp ⟨f, hf⟩
    have he' := expected_of_more_generated hlisted hmore he
    obtain ⟨f', hf'⟩ := exists_repair_iff.mpr ⟨e, he', hc, hne⟩
    have hmoves := Reconciliation.moves_of_more_generated (u := u) hmore
      fun k n hn => expected_subset he hn
    obtain ⟨p, hp, rfl⟩ := eq_repairAt he hf
    obtain ⟨p', hp', rfl⟩ := eq_repairAt he' hf'
    refine ⟨_, e, hf', rfl, he, he', rfl, rfl, hmoves, ?_⟩
    intro hnone
    rw [hnone] at hmoves
    exact Reconciliation.message_congr rfl rfl hmoves.mismatch_eq

/-- What `mixedGenerated` holds, and `zz`, which `mixedUsage` imports. -/
def widerGenerated : RepoSet := .ofList ["a", "b", "c", "d", "e", "zz"]

/-- The import of `zz` becomes an indirect one, next to `d`, and the user is told something else. -/
theorem Declaration.repair?_of_more_generated_of_mixedUsage :
    (∀ n ∈ mixedGenerated, n ∈ widerGenerated) ∧
      ∃ f f', mixedDeclaration.repair? mixedUsage mixedGenerated = .ok (some f) ∧
        mixedDeclaration.repair? mixedUsage widerGenerated = .ok (some f') ∧
        f'.commands = f.commands ∧ f'.warning.message ≠ f.warning.message ∧
        (⟨mixedUsage, mixedGenerated, mixedExpected⟩ : Reconciliation).mismatch .invalid =
          .ofList ["zz"] ∧
        (⟨mixedUsage, widerGenerated, mixedExpected⟩ : Reconciliation).mismatch .indirect =
          .ofList ["d", "zz"] := by
  have hmore : ∀ n ∈ mixedGenerated, n ∈ widerGenerated := by decide
  obtain ⟨f, hf, -⟩ := exists_repair_of_mixedUsage
  obtain ⟨f', e, hf', hcommands, he, -, hmessage, hmessage', hmoves, -⟩ :=
    (repair?_of_more_generated rfl mixedUsage hmore).2.2 f hf
  cases mixedDeclaration_expected.symm.trans he
  refine ⟨hmore, f, f', hf, hf', hcommands, ?_, by decide, ?_⟩
  · rw [hmessage, hmessage']
    decide +kernel
  · rw [hmoves.indirect]
    decide

end ImportRepair
