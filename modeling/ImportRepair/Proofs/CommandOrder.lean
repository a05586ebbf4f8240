import ImportRepair.Proofs.Convergence

/-!
# The order of commands

The commands of a repair may be carried out in any order, across files and within a file. What a
proxy imports afterwards depends on what it was asked for and not on when (`obeyAll_congr`), because
no repository is both added to a proxy and removed from it. This holds as well where an addition
takes the alias of another import.
-/

namespace ImportRepair

/-- A proxy comes out the same whatever commands ask it for the same things. -/
theorem Proxy.obeyAll_congr {p : Proxy} {cs cs' : List PlacedCommand}
    (hcons : ∀ n, p.Asked cs .add n → ¬p.Asked cs .remove n)
    (h : ∀ a n, p.Asked cs a n ↔ p.Asked cs' a n) : p.obeyAll cs = p.obeyAll cs' := by
  have hcons' : ∀ n, p.Asked cs' .add n → ¬p.Asked cs' .remove n := by
    intro n
    rw [← h, ← h]
    exact hcons n
  have himports : (p.obeyAll cs).imports = (p.obeyAll cs').imports := by
    ext entry
    simp only [mem_imports_obeyAll hcons, mem_imports_obeyAll hcons', h]
  rw [p.obeyAll_eq cs, p.obeyAll_eq cs', himports]

namespace Usage

variable {u : Usage} {e : PerKind RepoSet} {cs cs' : List PlacedCommand}

theorem obeyAll_congr (hs : u.Serves e cs)
    (h : ∀ p ∈ u.proxies, ∀ a n, p.Asked cs a n ↔ p.Asked cs' a n) :
    u.obeyAll cs = u.obeyAll cs' := by
  have hproxies : u.proxies.map (fun p => p.obeyAll cs) = u.proxies.map fun p => p.obeyAll cs' := by
    apply List.map_congr_left
    intro p hp
    exact Proxy.obeyAll_congr (hs.consistent hp) (h p hp)
  simp only [obeyAll, hproxies]

/-- Commands ask for the same things in any order. -/
theorem asked_perm (h : cs.Perm cs') (p : Proxy) (a : Action) (n : String) :
    p.Asked cs a n ↔ p.Asked cs' a n := by
  simp only [Proxy.Asked, h.mem_iff]

theorem Serves.perm (hs : u.Serves e cs) (h : cs.Perm cs') : u.Serves e cs' where
  readable := by
    intro c hc
    exact hs.readable c (h.mem_iff.mpr hc)
  addressed := by
    intro c hc
    exact hs.addressed c (h.mem_iff.mpr hc)
  wanted := by
    intro p hp a n hasked
    exact hs.wanted p hp a n ((asked_perm h p a n).mpr hasked)

/-- Commands that serve a repair have the same effect in any order. -/
theorem Serves.executeAll_perm (hs : u.Serves e cs) (hd : u.DistinctAddresses)
    (h : cs.Perm cs') : u.executeAll cs' = u.executeAll cs := by
  calc
    u.executeAll cs' = .ok (u.obeyAll cs') := (hs.perm h).executeAll hd
    _ = .ok (u.obeyAll cs) := by rw [obeyAll_congr hs fun p _ => asked_perm h p]
    _ = u.executeAll cs := (hs.executeAll hd).symm

end Usage

namespace Declaration

variable {d : Declaration} {generated : RepoSet} {e : PerKind RepoSet} {u : Usage} {f : Repair}

/-- The commands of a repair can be carried out in any order, with the result of applying the
repair. -/
theorem apply_in_any_order (he : d.expected generated = .ok (some e)) (hu : u.Editable e)
    (hf : d.repair? u generated = .ok (some f)) {cs : List PlacedCommand}
    (hperm : cs.Perm f.commands.toList) :
    ∃ u', u.apply f = .ok u' ∧ u.executeAll cs = .ok u' := by
  have hs := serves_repair he hu hf
  have happly : u.apply f = .ok (u.obeyAll f.commands.toList) := hs.executeAll hu.distinct
  refine ⟨_, happly, ?_⟩
  rw [hs.executeAll_perm hu.distinct hperm.symm]
  exact happly

/-- The addition of `a` takes the alias of `b`, whether it is carried out first or last. -/
theorem apply_in_any_order_of_collidingUsage :
    collidingUsage.Editable mixedExpected ∧ ¬collidingUsage.FreeAliases mixedExpected ∧
      ∃ f u', mixedDeclaration.repair? collidingUsage mixedGenerated = .ok (some f) ∧
        f.commands.toList.map (·.command.action) = [.add, .add, .remove, .remove] ∧
        collidingUsage.apply f = .ok u' ∧
        collidingUsage.executeAll f.commands.toList.reverse = .ok u' := by
  have heditable : collidingUsage.Editable mixedExpected := by decide
  obtain ⟨f, hf, hcommands⟩ := exists_repair (u := collidingUsage) mixedDeclaration_expected
    (by decide) (by decide)
  have hactions : f.commands.toList.map (·.command.action) = [.add, .add, .remove, .remove] := by
    rw [hcommands]
    decide
  obtain ⟨u', happly, hreverse⟩ := apply_in_any_order mixedDeclaration_expected heditable hf
    f.commands.toList.reverse_perm
  exact ⟨heditable, by decide, f, u', hf, hactions, happly, hreverse⟩

end Declaration

end ImportRepair
