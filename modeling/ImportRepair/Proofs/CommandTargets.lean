import ImportRepair.Proofs.PartialRepair

/-!
# Targets of commands

A command is made for one proxy and is carried out at the first proxy that has its path and its
label. The two are the same as long as no earlier proxy has the address of the one that the command
was made for. This need not be so, since all anonymous proxies of a file share a label, and a name
may be used again for a proxy of the other kind. `commands_reach_iff` says for which usages every
command reaches the proxy that it was made for.

## Implementation notes

Proxies are told apart by their positions: two proxies with one address may agree in all else too.
-/

namespace ImportRepair

namespace Usage

/-- The position of the first proxy of a kind. -/
def firstPosition? (u : Usage) (k : DepKind) : Option Nat := u.proxies.findIdx? fun p => p.kind == k

/-- A command is made for the proxy at a position. An addition is made for the first proxy of a kind
and names what is missing of the kind; a removal names what the proxy itself imports of what has to
go. -/
def MadeFor (u : Usage) (e : PerKind RepoSet) (c : PlacedCommand) (i : Nat) : Prop :=
  ∃ p, u.proxies[i]? = some p ∧ c.Addresses p ∧
    match c.command.action with
    | .add => u.firstPosition? p.kind = some i ∧ c.command.repos = (u.missing e).add.get p.kind
    | .remove => c.command.repos = p.repos ∩ (u.missing e).remove.get p.kind

/-- Something has to be added to the proxy at a position or to be removed from it. -/
def Commanded (u : Usage) (e : PerKind RepoSet) (i : Nat) : Prop :=
  ∃ p, u.proxies[i]? = some p ∧
    ((u.firstPosition? p.kind = some i ∧ (u.missing e).add.get p.kind ≠ ∅) ∨
      p.repos ∩ (u.missing e).remove.get p.kind ≠ ∅)

/-- An earlier proxy has the address of the proxy at a position. -/
def Shadowed (u : Usage) (i : Nat) : Prop :=
  ∃ p, u.proxies[i]? = some p ∧ ∃ j < i, ∃ q, u.proxies[j]? = some q ∧ q.SameAddress p

variable {u : Usage} {e : PerKind RepoSet} {c : PlacedCommand} {i : Nat}

theorem first?_eq_some_iff_firstPosition? {k : DepKind} {p : Proxy} :
    u.first? k = some p ↔ ∃ i, u.firstPosition? k = some i ∧ u.proxies[i]? = some p := by
  rw [first?, List.find?_eq_bind_findIdx?_getElem?, Option.bind_eq_some_iff]
  rfl

theorem MadeFor.of_same {c' : PlacedCommand} (h : u.MadeFor e c i) (hpath : c.path.Same c'.path)
    (hcommand : c.command = c'.command) : u.MadeFor e c' i := by
  obtain ⟨p, hp, haddr, hmade⟩ := h
  rw [hcommand] at hmade
  exact ⟨p, hp, ⟨haddr.1.trans hpath, hcommand ▸ haddr.2⟩, hmade⟩

/-- Each command for a difference is made for the proxy at some position. -/
theorem exists_madeFor_of_mem_sequence (hc : c ∈ (u.missing e).sequence u) :
    ∃ i, u.MadeFor e c i := by
  rcases ImportDiff.mem_sequence.mp hc with ⟨k, p, hp, -, rfl⟩ | ⟨p, hp, -, rfl⟩
  · obtain ⟨-, rfl⟩ := mem_of_first? hp
    obtain ⟨i, hi, hpi⟩ := first?_eq_some_iff_firstPosition?.mp hp
    exact ⟨i, p, hpi, p.addresses_command _ _, hi, rfl⟩
  · obtain ⟨i, hi⟩ := List.mem_iff_getElem?.mp hp
    exact ⟨i, p, hi, p.addresses_command _ _, rfl⟩

/-- A command is made for every proxy to which something has to be added or removed from. -/
theorem Commanded.exists_mem_sequence (h : u.Commanded e i) :
    ∃ c ∈ (u.missing e).sequence u, u.MadeFor e c i := by
  obtain ⟨p, hp, ⟨hfirst, hne⟩ | hne⟩ := h
  · have hfirst? := first?_eq_some_iff_firstPosition?.mpr ⟨i, hfirst, hp⟩
    have hmem := ImportDiff.mem_sequence.mpr (Or.inl ⟨_, p, hfirst?, hne, rfl⟩)
    exact ⟨_, hmem, p, hp, p.addresses_command _ _, hfirst, rfl⟩
  · have hmem := ImportDiff.mem_sequence.mpr
      (Or.inr ⟨p, List.mem_of_getElem? hp, hne, rfl⟩)
    exact ⟨_, hmem, p, hp, p.addresses_command _ _, rfl⟩

theorem MadeFor.commanded (h : u.MadeFor e c i) (hne : c.command.repos ≠ ∅) :
    u.Commanded e i := by
  obtain ⟨p, hp, -, hmade⟩ := h
  refine ⟨p, hp, ?_⟩
  cases haction : c.command.action with
  | add =>
      simp only [haction] at hmade
      exact Or.inl ⟨hmade.1, hmade.2 ▸ hne⟩
  | remove =>
      simp only [haction] at hmade
      exact Or.inr (hmade ▸ hne)

/-- A command that addresses some proxy reaches it, or one before it. -/
theorem MadeFor.exists_position? (h : u.MadeFor e c i) : ∃ j ≤ i, u.position? c = some j := by
  obtain ⟨p, hp, haddr, -⟩ := h
  obtain ⟨hi, rfl⟩ := List.getElem?_eq_some_iff.mp hp
  cases hj : u.position? c with
  | none =>
      have hnone := List.findIdx?_eq_none_iff.mp hj u.proxies[i] (List.getElem_mem hi)
      simp [haddr] at hnone
  | some j =>
      refine ⟨j, ?_, rfl⟩
      apply Nat.le_of_not_lt
      intro hlt
      exact (position?_eq_some_iff_first.mp hj).2 i hlt _ (List.getElem?_eq_getElem hi) haddr

/-- A command reaches the proxy that it was made for just when no earlier one has its address. -/
theorem MadeFor.position?_eq_iff (h : u.MadeFor e c i) :
    u.position? c = some i ↔ ¬u.Shadowed i := by
  obtain ⟨p, hp, haddr, -⟩ := h
  rw [position?_eq_some_iff_first, and_iff_right ⟨p, hp, haddr⟩]
  constructor
  · rintro hbefore ⟨p', hp', j, hj, q, hq, hsame⟩
    cases hp.symm.trans hp'
    exact hbefore j hj q hq ⟨hsame.1.trans haddr.1, hsame.2.trans haddr.2⟩
  · intro hshadowed j hj q hq hqaddr
    exact hshadowed ⟨p, hp, j, hj, q, hq, Proxy.sameAddress_of_addresses hqaddr haddr⟩

theorem DistinctAddresses.not_shadowed (hd : u.DistinctAddresses) (i : Nat) : ¬u.Shadowed i := by
  rintro ⟨p, hp, j, hj, q, hq, hsame⟩
  obtain ⟨hi, rfl⟩ := List.getElem?_eq_some_iff.mp hp
  obtain ⟨hj', rfl⟩ := List.getElem?_eq_some_iff.mp hq
  exact List.pairwise_iff_getElem.mp hd j i hj' hi hj hsame

end Usage

namespace Declaration

variable {d : Declaration} {generated : RepoSet} {e : PerKind RepoSet} {u : Usage} {f : Repair}

/-- Each command of a repair was made for a proxy, and reaches it or one before it. All commands
reach the proxies that they were made for just when no proxy to which something has to be added or
removed from comes after another one with its address. -/
theorem commands_reach_iff (he : d.expected generated = .ok (some e))
    (hf : d.repair? u generated = .ok (some f)) :
    (∀ c ∈ f.commands.toList,
        ∃ i, u.MadeFor e c i ∧ ∃ j ≤ i, u.position? c = some j) ∧
      ((∀ c ∈ f.commands.toList, ∀ i, u.MadeFor e c i → u.position? c = some i) ↔
        ∀ i, u.Commanded e i → ¬u.Shadowed i) := by
  rw [(of_repair?_eq_some he hf).2.2]
  refine ⟨?_, ?_, ?_⟩
  · intro c hc
    obtain ⟨pc, hpc, hpath, hcommand⟩ := EditPlan.exists_mem_of_mem_ofList hc
    obtain ⟨i, hi⟩ := Usage.exists_madeFor_of_mem_sequence hpc
    have hmade := hi.of_same hpath hcommand
    exact ⟨i, hmade, hmade.exists_position?⟩
  · intro h i hi
    obtain ⟨pc, hpc, hmade⟩ := hi.exists_mem_sequence
    obtain ⟨c, hc, hpath, hcommand⟩ := EditPlan.exists_mem_ofList_of_mem hpc
    have hmade' := hmade.of_same hpath.symm hcommand.symm
    exact hmade'.position?_eq_iff.mp (h c hc i hmade')
  · intro h c hc i hmade
    obtain ⟨pc, hpc, -, hcommand⟩ := EditPlan.exists_mem_of_mem_ofList hc
    obtain ⟨-, -, -, hne, -⟩ := Usage.exists_wants_of_mem_sequence hpc
    rw [hcommand] at hne
    exact hmade.position?_eq_iff.mpr (h i (hmade.commanded hne))

theorem commands_reach_of_mixedUsage :
    ∃ f, mixedDeclaration.repair? mixedUsage mixedGenerated = .ok (some f) ∧
      f.commands.toList.length = 6 ∧
      ∀ c ∈ f.commands.toList, ∀ i, mixedUsage.MadeFor mixedExpected c i →
        mixedUsage.position? c = some i := by
  obtain ⟨f, hf, hcommands⟩ := exists_repair_of_mixedUsage
  have hlength : f.commands.toList.length = 6 := by
    rw [hcommands]
    decide
  exact ⟨f, hf, hlength, (commands_reach_iff mixedDeclaration_expected hf).2.mpr fun i _ =>
    mixedUsage_editable.distinct.not_shadowed i⟩

/-- A usage with two anonymous proxies in one file. -/
def twinUsage : Usage where
  bzlFile := "@ext_mod//:extensions.bzl"
  extensionName := "ext"
  proxies := [
    { path := ⟨"MODULE.bazel"⟩, location := ⟨"MODULE.bazel", 1, 1⟩
      imports := .ofList [("a", "a"), ("b", "b")] },
    { path := ⟨"MODULE.bazel"⟩, location := ⟨"MODULE.bazel", 2, 1⟩
      imports := .ofList [("d", "d")] },
    { path := ⟨"MODULE.bazel"⟩, kind := .dev, name := "dev", location := ⟨"MODULE.bazel", 3, 7⟩
      imports := .ofList [("c", "c")] }]

/-- The removal of `d` is made for the second proxy and reaches the first one, which does not import
`d`. Applying the repair changes nothing, so it is called for again. -/
theorem command_misses_twin :
    (∀ n ∈ mixedGenerated, isUserRepoName n) ∧
      (∀ p ∈ twinUsage.proxies, (p.name = "" ∨ IsWord p.name) ∧ ∀ n ∈ p.repos, isUserRepoName n) ∧
      ∃ f c, mixedDeclaration.repair? twinUsage mixedGenerated = .ok (some f) ∧
        c ∈ f.commands.toList ∧ twinUsage.MadeFor mixedExpected c 1 ∧
        twinUsage.position? c = some 0 ∧ twinUsage.apply f = .ok twinUsage := by
  obtain ⟨f, hf, hcommands⟩ := exists_repair (u := twinUsage) mixedDeclaration_expected
    (by decide) (by decide)
  have hlist : f.commands.toList =
      [⟨⟨"MODULE.bazel"⟩, .ofList .remove "_unnamed_usage" ["d"]⟩] := by
    rw [hcommands]
    decide
  refine ⟨by decide, by decide, f, _, hf, hlist ▸ List.mem_singleton_self _, ?_, by decide, ?_⟩
  · exact ⟨_, rfl, by decide, by rfl⟩
  · rw [Usage.apply, hlist]
    rfl

end Declaration

end ImportRepair
