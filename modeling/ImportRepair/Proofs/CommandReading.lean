import ImportRepair.Proofs.Outcome
import ImportRepair.Proofs.PartialRepair

/-!
# Reading the commands of a repair

The commands of a repair are handed on as texts. Names come into them from the proxies, from the
imports and from the generated repositories, and none of these have to be words. All commands are
read as they were made just when every name that a repair has to mention is a word
(`commands_read_back_iff`). Any other name is split, or lost.
-/

namespace ImportRepair

namespace Declaration

variable {d : Declaration} {generated : RepoSet} {e : PerKind RepoSet} {u : Usage} {f : Repair}

/-- The commands of a repair are readable if they mention words only. -/
theorem readable_repair_iff (he : d.expected generated = .ok (some e))
    (hf : d.repair? u generated = .ok (some f)) :
    (∀ c ∈ f.commands.toList, c.command.Readable) ↔
      ∀ p ∈ u.proxies, ∀ a n, u.Wants e p a n → IsWord p.label ∧ IsWord n := by
  rw [(of_repair?_eq_some he hf).2.2]
  constructor
  · intro h p hp a n hw
    obtain ⟨pc, hpc, haddr, -, hn⟩ := hw.asked_sequence hp
    obtain ⟨c, hc, -, hcommand⟩ := EditPlan.exists_mem_ofList_of_mem hpc
    have hreadable : pc.command.Readable := hcommand ▸ h c hc
    exact ⟨haddr.2 ▸ hreadable.label, hreadable.repos n hn⟩
  · intro h c hc
    obtain ⟨pc, hpc, -, hcommand⟩ := EditPlan.exists_mem_of_mem_ofList hc
    obtain ⟨p, hp, haddr, hne, hwants⟩ := Usage.exists_wants_of_mem_sequence hpc
    obtain ⟨n, hn⟩ := RepoSet.exists_mem_of_ne_empty hne
    rw [← hcommand]
    refine ⟨?_, hne, fun m hm => (h p hp _ m (hwants m hm)).2⟩
    rw [← haddr.2]
    exact (h p hp _ n (hwants n hn)).1

end Declaration

namespace Evaluation

/-- The commands for an evaluation are read off their texts as they were made, just when whatever a
proxy has to add or to drop is a word, and so is the label of the proxy. -/
theorem commands_read_back_iff {e : Evaluation} {f : Repair} (hf : e.check = .ok (some f)) :
    ∃ d expected, e.declaration = .ok d ∧ d.expected e.generated = .ok (some expected) ∧
      ((∀ c ∈ f.commands.toList, Command.parse c.command.text = .ok c.command) ↔
        ∀ p ∈ e.proxies, ∀ a n, e.usage.Wants expected p a n → IsWord p.label ∧ IsWord n) := by
  obtain ⟨d, hd, hrepair⟩ := check_eq_ok_iff.mp hf
  obtain ⟨expected, he, -, -⟩ := Declaration.exists_repair_iff.mp ⟨f, hrepair⟩
  refine ⟨d, expected, hd, he, ?_⟩
  simp only [Command.parse_text_eq_ok_iff]
  exact Declaration.readable_repair_iff he hrepair

/-- The evaluation of an extension with the declaration and the usage of every mismatch. -/
def mixedEvaluation : Evaluation where
  schema := supportedSchema
  bzlFile := mixedUsage.bzlFile
  extensionName := mixedUsage.extensionName
  deps := .strings ["a", "b"]
  devDeps := .strings ["c"]
  reproducible := false
  generated := mixedGenerated
  proxies := mixedUsage.proxies

theorem commands_read_back_of_mixedEvaluation :
    ∃ f, mixedEvaluation.check = .ok (some f) ∧
      ∀ c ∈ f.commands.toList, Command.parse c.command.text = .ok c.command := by
  obtain ⟨f, hf, -⟩ := Declaration.exists_repair_of_mixedUsage
  have hd : mixedEvaluation.declaration = .ok mixedDeclaration := by rfl
  have hcheck : mixedEvaluation.check = .ok (some f) := check_eq_ok_iff.mpr ⟨_, hd, hf⟩
  obtain ⟨d, expected, hd', he, hiff⟩ := commands_read_back_iff hcheck
  cases hd.symm.trans hd'
  cases mixedDeclaration_expected.symm.trans he
  exact ⟨f, hcheck, hiff.mpr fun _ hp _ _ hw =>
    Declaration.mixedUsage_editable.isWord_of_wants hp hw⟩

/-- An extension that generates a name of two words, used through a proxy whose name has two words
and through one that imports a repository without a name. -/
def spacedEvaluation : Evaluation where
  schema := supportedSchema
  bzlFile := "@ext_mod//:extensions.bzl"
  extensionName := "ext"
  deps := .string "all"
  devDeps := .strings []
  reproducible := false
  generated := .ofList ["a b"]
  proxies := [
    { path := ⟨"MODULE.bazel"⟩, name := "ext", location := ⟨"MODULE.bazel", 1, 7⟩ },
    { path := ⟨"MODULE.bazel"⟩, name := "my ext", location := ⟨"MODULE.bazel", 2, 7⟩
      imports := .ofList [("c", "c")] },
    { path := ⟨"MODULE.bazel"⟩, location := ⟨"MODULE.bazel", 3, 1⟩
      imports := .ofList [("none", "")] }]

/-- A name of two words is read as two names, the rest of a label as a name, and an empty name not
at all. -/
theorem commands_misread_of_spacedEvaluation :
    ∃ f c₁ c₂ c₃, spacedEvaluation.check = .ok (some f) ∧
      f.commands.toList.map (·.command) = [c₁, c₂, c₃] ∧
      c₁ = .ofList .add "ext" ["a b"] ∧
      Command.parse c₁.text = .ok (.ofList .add "ext" ["a", "b"]) ∧
      c₂ = .ofList .remove "my ext" ["c"] ∧
      Command.parse c₂.text = .ok (.ofList .remove "my" ["c", "ext"]) ∧
      c₃ = .ofList .remove "_unnamed_usage" [""] ∧
      Command.parse c₃.text = .error ⟨c₃.text, .noRepositories⟩ ∧
      ¬∀ c ∈ f.commands.toList, Command.parse c.command.text = .ok c.command := by
  have hd : spacedEvaluation.declaration = .ok ⟨.all .regular, false⟩ := by rfl
  have he : Declaration.expected ⟨.all .regular, false⟩ spacedEvaluation.generated =
      .ok (some ⟨.ofList ["a b"], ∅⟩) := by rfl
  obtain ⟨f, hf, hcommands⟩ := Declaration.exists_repair (u := spacedEvaluation.usage) he
    (by decide) (by decide)
  have hlist : f.commands.toList.map (·.command) =
      [.ofList .add "ext" ["a b"], .ofList .remove "my ext" ["c"],
        .ofList .remove "_unnamed_usage" [""]] := by
    rw [hcommands]
    decide
  have hread : Command.parse (Command.ofList .add "ext" ["a b"]).text =
      .ok (.ofList .add "ext" ["a", "b"]) := by rfl
  refine ⟨f, _, _, _, check_eq_ok_iff.mpr ⟨_, hd, hf⟩, hlist, rfl, hread, rfl, by rfl, rfl, by rfl,
    ?_⟩
  intro hall
  have hmem : Command.ofList .add "ext" ["a b"] ∈ f.commands.toList.map (·.command) := by
    rw [hlist]
    exact List.mem_cons_self ..
  obtain ⟨c, hc, hcommand⟩ := List.mem_map.mp hmem
  have hsame := hall c hc
  rw [hcommand, hread] at hsame
  exact absurd (Except.ok.inj hsame) (by decide)

end Evaluation

end ImportRepair
