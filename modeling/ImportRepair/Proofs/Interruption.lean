import ImportRepair.Proofs.PartialRepair
import Mathlib.Data.Finset.Dedup
import Mathlib.Data.Finset.SDiff

/-!
# Interrupted repairs

A repair is a set of edits, each of which adds one repository to a proxy or removes it. If any proper
part of them has been carried out, in whatever way they were spread over commands, the next repair
consists of the others.

## Implementation notes

A proxy is named by its position, which does not change when its imports do.
-/

namespace ImportRepair

/-- One repository that is added to the proxy at a position, or removed from it. -/
structure Edit where
  action : Action
  position : Nat
  repo : String
  deriving DecidableEq, Repr

namespace Usage

/-- What a command does to one repository, if the command addresses a proxy. -/
def edit? (u : Usage) (c : PlacedCommand) (n : String) : Option Edit :=
  (u.position? c).map fun i => ⟨c.command.action, i, n⟩

/-- The edits that commands consist of. -/
def edits (u : Usage) (cs : List PlacedCommand) : Finset Edit :=
  (cs.flatMap fun c => c.command.repos.toList.filterMap (u.edit? c)).toFinset

/-- The repositories of a command whose edits are chosen. -/
def chosenRepos (u : Usage) (chosen : Finset Edit) (c : PlacedCommand) : RepoSet :=
  c.command.repos.filter fun n => (u.edit? c n).any fun x => decide (x ∈ chosen)

/-- Commands that carry out the chosen edits alone. A command of which nothing is left is skipped. -/
def restrict (u : Usage) (chosen : Finset Edit) (cs : List PlacedCommand) : List PlacedCommand :=
  cs.filterMap fun c =>
    if u.chosenRepos chosen c = ∅ then none
    else some ⟨c.path, { c.command with repos := u.chosenRepos chosen c }⟩

variable {u : Usage} {e : PerKind RepoSet} {cs : List PlacedCommand} {chosen : Finset Edit}

theorem mem_edits {x : Edit} :
    x ∈ u.edits cs ↔ ∃ c ∈ cs, u.position? c = some x.position ∧ c.command.action = x.action ∧
      x.repo ∈ c.command.repos := by
  simp only [edits, List.mem_toFinset, List.mem_flatMap, List.mem_filterMap, edit?,
    Option.map_eq_some_iff]
  constructor
  · rintro ⟨c, hc, n, hn, i, hi, rfl⟩
    exact ⟨c, hc, hi, rfl, hn⟩
  · rintro ⟨c, hc, hi, hact, hn⟩
    refine ⟨c, hc, x.repo, hn, x.position, hi, ?_⟩
    rw [hact]

theorem position?_eq_some_iff (hd : u.DistinctAddresses) {c : PlacedCommand} {i : Nat} :
    u.position? c = some i ↔ ∃ p, u.proxies[i]? = some p ∧ c.Addresses p := by
  rw [position?_eq_some_iff_first]
  apply and_iff_left_of_imp
  rintro ⟨p, hp, haddr⟩ j hj q hq hqaddr
  obtain ⟨hi, rfl⟩ := List.getElem?_eq_some_iff.mp hp
  obtain ⟨hj', rfl⟩ := List.getElem?_eq_some_iff.mp hq
  exact List.pairwise_iff_getElem.mp hd j i hj' hi hj
    (Proxy.sameAddress_of_addresses hqaddr haddr)

theorem exists_of_mem_edits (hd : u.DistinctAddresses) {x : Edit} (hx : x ∈ u.edits cs) :
    ∃ p, u.proxies[x.position]? = some p := by
  obtain ⟨c, -, hi, -⟩ := mem_edits.mp hx
  obtain ⟨p, hp, -⟩ := (position?_eq_some_iff hd).mp hi
  exact ⟨p, hp⟩

/-- Edits at the proxies of a usage are determined proxy by proxy. -/
theorem edits_ext {s t : Finset Edit} (hs : ∀ x ∈ s, ∃ p, u.proxies[x.position]? = some p)
    (ht : ∀ x ∈ t, ∃ p, u.proxies[x.position]? = some p)
    (h : ∀ i p, u.proxies[i]? = some p → ∀ a n, (⟨a, i, n⟩ ∈ s ↔ ⟨a, i, n⟩ ∈ t)) : s = t := by
  ext x
  constructor
  · intro hx
    obtain ⟨p, hp⟩ := hs x hx
    exact (h x.position p hp x.action x.repo).mp hx
  · intro hx
    obtain ⟨p, hp⟩ := ht x hx
    exact (h x.position p hp x.action x.repo).mpr hx

/-- The edits at a position are what the proxy there is asked for. -/
theorem mem_edits_iff_asked (hd : u.DistinctAddresses) {i : Nat} {p : Proxy}
    (hp : u.proxies[i]? = some p) {a : Action} {n : String} :
    ⟨a, i, n⟩ ∈ u.edits cs ↔ p.Asked cs a n := by
  have haddr : ∀ c, u.position? c = some i ↔ c.Addresses p := by
    intro c
    rw [position?_eq_some_iff hd, hp]
    constructor
    · rintro ⟨q, hq, hqaddr⟩
      cases hq
      exact hqaddr
    · intro h
      exact ⟨p, rfl, h⟩
  simp only [mem_edits, haddr, Proxy.Asked]

theorem mem_chosenRepos {c : PlacedCommand} {i : Nat} (hi : u.position? c = some i) {n : String} :
    n ∈ u.chosenRepos chosen c ↔ n ∈ c.command.repos ∧ ⟨c.command.action, i, n⟩ ∈ chosen := by
  simp only [chosenRepos, RepoSet.mem_filter, edit?, hi, Option.map_some, Option.any_some,
    decide_eq_true_eq]

theorem mem_restrict {c : PlacedCommand} :
    c ∈ u.restrict chosen cs ↔ ∃ c' ∈ cs, u.chosenRepos chosen c' ≠ ∅ ∧
      c = ⟨c'.path, { c'.command with repos := u.chosenRepos chosen c' }⟩ := by
  simp only [restrict, List.mem_filterMap]
  constructor
  · rintro ⟨c', hc', h⟩
    split at h
    · cases h
    · rename_i hne
      exact ⟨c', hc', hne, (Option.some.inj h).symm⟩
  · rintro ⟨c', hc', hne, rfl⟩
    exact ⟨c', hc', if_neg hne⟩

/-- Chosen commands ask for what they asked for before, as far as it was chosen. -/
theorem asked_restrict_iff (hd : u.DistinctAddresses) {i : Nat} {p : Proxy}
    (hp : u.proxies[i]? = some p) {a : Action} {n : String} :
    p.Asked (u.restrict chosen cs) a n ↔ p.Asked cs a n ∧ ⟨a, i, n⟩ ∈ chosen := by
  have hposition : ∀ c : PlacedCommand, c.Addresses p → u.position? c = some i := fun c hc =>
    (position?_eq_some_iff hd).mpr ⟨p, hp, hc⟩
  constructor
  · rintro ⟨_, hmem, haddr, hact, hn⟩
    obtain ⟨c, hc, -, rfl⟩ := mem_restrict.mp hmem
    have haddr' : c.Addresses p := haddr
    obtain ⟨hrepo, hchosen⟩ := (mem_chosenRepos (hposition c haddr')).mp hn
    have hact' : c.command.action = a := hact
    exact ⟨⟨c, hc, haddr', hact', hrepo⟩, hact' ▸ hchosen⟩
  · rintro ⟨⟨c, hc, haddr, rfl, hrepo⟩, hchosen⟩
    have hn : n ∈ u.chosenRepos chosen c :=
      (mem_chosenRepos (hposition c haddr)).mpr ⟨hrepo, hchosen⟩
    have hmem := mem_restrict.mpr ⟨c, hc, RepoSet.ne_empty_of_mem hn, rfl⟩
    exact ⟨_, hmem, haddr, rfl, hn⟩

/-- A part of commands that serve a repair serves it too. -/
theorem Serves.restrict (hs : u.Serves e cs) (hd : u.DistinctAddresses)
    (chosen : Finset Edit) : u.Serves e (u.restrict chosen cs) where
  readable := by
    intro c hc
    obtain ⟨c', hc', hne, rfl⟩ := mem_restrict.mp hc
    have h := hs.readable c' hc'
    refine ⟨h.label, hne, ?_⟩
    intro n hn
    exact h.repos n (RepoSet.mem_filter.mp hn).1
  addressed := by
    intro c hc
    obtain ⟨c', hc', -, rfl⟩ := mem_restrict.mp hc
    exact hs.addressed c' hc'
  wanted := by
    intro p hp a n h
    obtain ⟨i, hi, rfl⟩ := List.mem_iff_getElem.mp hp
    exact hs.wanted _ hp a n ((asked_restrict_iff hd (List.getElem?_eq_getElem hi)).mp h).1

theorem proxies_obeyAll_getElem? (i : Nat) :
    (u.obeyAll cs).proxies[i]? = u.proxies[i]?.map fun p => p.obeyAll cs := by
  simp only [obeyAll, List.getElem?_map]

end Usage

namespace Declaration

variable {d : Declaration} {generated : RepoSet} {e : PerKind RepoSet} {u : Usage} {f : Repair}

/-- The edits of a repair are what the proxies want. -/
theorem mem_edits_repair_iff (he : d.expected generated = .ok (some e))
    (hd : u.DistinctAddresses) (hf : d.repair? u generated = .ok (some f)) {i : Nat} {p : Proxy}
    (hp : u.proxies[i]? = some p) {a : Action} {n : String} :
    ⟨a, i, n⟩ ∈ u.edits f.commands.toList ↔ u.Wants e p a n := by
  rw [Usage.mem_edits_iff_asked hd hp]
  exact asked_repair_iff he hf hd (List.mem_of_getElem? hp)

/-- After a part of a repair, a proxy wants what is left of its edits. -/
theorem wants_after_part_iff (he : d.expected generated = .ok (some e)) (hu : u.Editable e)
    (hfree : u.FreeAliases e) (hf : d.repair? u generated = .ok (some f)) (chosen : Finset Edit)
    {i : Nat} {p : Proxy} (hp : u.proxies[i]? = some p) {a : Action} {n : String} :
    (u.obeyAll (u.restrict chosen f.commands.toList)).Wants e
        (p.obeyAll (u.restrict chosen f.commands.toList)) a n ↔
      ⟨a, i, n⟩ ∈ u.edits f.commands.toList \ chosen := by
  have hd := hu.distinct
  have hmem : p ∈ u.proxies := List.mem_of_getElem? hp
  have hs := (serves_repair he hu hf).restrict hd chosen
  calc _ ↔ u.Wants e p a n ∧ ¬p.Asked (u.restrict chosen f.commands.toList) a n :=
        hs.wants_obeyAll_iff hd hfree hmem
    _ ↔ p.Asked f.commands.toList a n ∧
          ¬(p.Asked f.commands.toList a n ∧ ⟨a, i, n⟩ ∈ chosen) := by
        rw [asked_repair_iff he hf hd hmem, Usage.asked_restrict_iff hd hp,
          asked_repair_iff he hf hd hmem]
    _ ↔ p.Asked f.commands.toList a n ∧ ⟨a, i, n⟩ ∉ chosen := by
        rw [not_and, and_congr_right_iff]
        intro h
        rw [forall_prop_of_true h]
    _ ↔ ⟨a, i, n⟩ ∈ u.edits f.commands.toList \ chosen := by
        rw [Finset.mem_sdiff, Usage.mem_edits_iff_asked hd hp]

/-- After a proper part of a repair, the next repair consists of the edits that are left, at the same
proxies. -/
theorem repair_after_interruption (he : d.expected generated = .ok (some e))
    (hu : u.Editable e) (hfree : u.FreeAliases e) (hf : d.repair? u generated = .ok (some f))
    {chosen : Finset Edit} (hchosen : chosen ⊂ u.edits f.commands.toList) :
    ∃ u' f', u.executeAll (u.restrict chosen f.commands.toList) = .ok u' ∧
      u'.proxies.map Proxy.frame = u.proxies.map Proxy.frame ∧
      d.repair? u' generated = .ok (some f') ∧
      u'.edits f'.commands.toList = u.edits f.commands.toList \ chosen := by
  let cs := u.restrict chosen f.commands.toList
  have hd := hu.distinct
  have hs : u.Serves e cs := (serves_repair he hu hf).restrict hd chosen
  have hc : (u.obeyAll cs).Covers e := (covers_of_repair? he hf).obeyAll cs
  have hmissing : ((u.obeyAll cs).missing e).isEmpty ≠ true := by
    intro hempty
    obtain ⟨x, hx, hnot⟩ := Finset.exists_of_ssubset hchosen
    obtain ⟨p, hp⟩ := Usage.exists_of_mem_edits hd hx
    have hp' : p.obeyAll cs ∈ (u.obeyAll cs).proxies :=
      Usage.mem_obeyAll.mpr ⟨p, List.mem_of_getElem? hp, rfl⟩
    apply (Usage.missing_isEmpty_iff hc).mp hempty _ hp' x.action x.repo
    exact (wants_after_part_iff he hu hfree hf chosen hp).mpr (Finset.mem_sdiff.mpr ⟨hx, hnot⟩)
  obtain ⟨f', hf', -⟩ := exists_repair he hc hmissing
  refine ⟨u.obeyAll cs, f', hs.executeAll hd, u.map_frame_obeyAll cs, hf', ?_⟩
  apply Usage.edits_ext (u := u)
  · intro x hx
    obtain ⟨q, hq⟩ := Usage.exists_of_mem_edits (hd.obeyAll cs) hx
    rw [Usage.proxies_obeyAll_getElem?, Option.map_eq_some_iff] at hq
    obtain ⟨p, hp, -⟩ := hq
    exact ⟨p, hp⟩
  · intro x hx
    exact Usage.exists_of_mem_edits hd (Finset.mem_sdiff.mp hx).1
  · intro i p hp a n
    have hp' : (u.obeyAll cs).proxies[i]? = some (p.obeyAll cs) := by
      rw [Usage.proxies_obeyAll_getElem?, hp, Option.map_some]
    rw [mem_edits_repair_iff he (hd.obeyAll cs) hf' hp',
      wants_after_part_iff he hu hfree hf chosen hp]

theorem repair_after_interruption_of_mixedUsage :
    ∃ f chosen, mixedDeclaration.repair? mixedUsage mixedGenerated = .ok (some f) ∧
      chosen = {⟨.add, 0, "b"⟩, ⟨.remove, 0, "c"⟩, ⟨.remove, 3, "d"⟩} ∧
      chosen ⊂ mixedUsage.edits f.commands.toList ∧
      ∃ u' f', mixedUsage.executeAll (mixedUsage.restrict chosen f.commands.toList) = .ok u' ∧
        u'.proxies.map Proxy.frame = mixedUsage.proxies.map Proxy.frame ∧
        mixedDeclaration.repair? u' mixedGenerated = .ok (some f') ∧
        u'.edits f'.commands.toList = mixedUsage.edits f.commands.toList \ chosen := by
  obtain ⟨f, hf, hcommands⟩ := exists_repair_of_mixedUsage
  have hchosen : ({⟨.add, 0, "b"⟩, ⟨.remove, 0, "c"⟩, ⟨.remove, 3, "d"⟩} : Finset Edit) ⊂
      mixedUsage.edits f.commands.toList := by
    rw [hcommands]
    decide
  exact ⟨f, _, hf, rfl, hchosen, repair_after_interruption mixedDeclaration_expected
    mixedUsage_editable mixedUsage_freeAliases hf hchosen⟩

end Declaration

end ImportRepair
