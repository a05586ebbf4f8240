import ImportRepair.Proofs.PlannedEdits

/-!
# Parts of a repair

Commands that ask for nothing but what proxies want take part in a repair. When such commands have
been carried out, every proxy wants what it wanted before less what it was asked for
(`wants_obeyAll_iff`), provided that no alias stands in the way of an addition. So a whole repair
leaves nothing to repair.

## Implementation notes

An addition puts a repository under its own name, and what the first proxy of the kind imported
under that alias is lost. `Usage.FreeAliases` excludes this. The lemmas before it do without it.
-/

namespace ImportRepair

namespace Usage

/-- Proxies can be told apart by their addresses, and all names are words. -/
structure Editable (u : Usage) (e : PerKind RepoSet) : Prop where
  distinct : u.DistinctAddresses
  label : ∀ p ∈ u.proxies, IsWord p.label
  imported : ∀ p ∈ u.proxies, ∀ n ∈ p.repos, IsWord n
  expected : ∀ k, ∀ n ∈ e.get k, IsWord n

theorem editable_iff {u : Usage} {e : PerKind RepoSet} :
    u.Editable e ↔ u.DistinctAddresses ∧ (∀ p ∈ u.proxies, IsWord p.label) ∧
      (∀ p ∈ u.proxies, ∀ n ∈ p.repos, IsWord n) ∧ ∀ k, ∀ n ∈ e.get k, IsWord n :=
  ⟨fun h => ⟨h.distinct, h.label, h.imported, h.expected⟩, fun ⟨h₁, h₂, h₃, h₄⟩ => ⟨h₁, h₂, h₃, h₄⟩⟩

instance (u : Usage) (e : PerKind RepoSet) : Decidable (u.Editable e) :=
  decidable_of_iff _ editable_iff.symm

/-- No alias of the first proxy of a kind is a repository that has to be added there. -/
def FreeAliases (u : Usage) (e : PerKind RepoSet) : Prop :=
  ∀ k, ∀ p ∈ u.first? k, ∀ n ∈ (u.missing e).add.get k, ∀ entry ∈ p.imports.toList, entry.1 ≠ n

instance (u : Usage) (e : PerKind RepoSet) : Decidable (u.FreeAliases e) :=
  inferInstanceAs (Decidable (∀ k, ∀ p ∈ u.first? k, ∀ n ∈ (u.missing e).add.get k,
    ∀ entry ∈ p.imports.toList, entry.1 ≠ n))

/-- Commands that can be carried out and ask proxies for nothing but what they want. -/
structure Serves (u : Usage) (e : PerKind RepoSet) (cs : List PlacedCommand) : Prop where
  readable : ∀ c ∈ cs, c.command.Readable
  addressed : ∀ c ∈ cs, ∃ p ∈ u.proxies, c.Addresses p
  wanted : ∀ p ∈ u.proxies, ∀ a n, p.Asked cs a n → u.Wants e p a n

variable {u : Usage} {e : PerKind RepoSet} {cs : List PlacedCommand} {p : Proxy}

theorem Serves.executeAll (hs : u.Serves e cs) (hd : u.DistinctAddresses) :
    u.executeAll cs = .ok (u.obeyAll cs) :=
  executeAll_eq_ok hd hs.readable hs.addressed

/-- What is expected is not removed. -/
theorem Serves.not_removed (hs : u.Serves e cs) (hp : p ∈ u.proxies) {n : String}
    (hn : n ∈ e.get p.kind) : ¬p.Asked cs .remove n := by
  intro hremove
  exact (hs.wanted p hp _ _ hremove).2 hn

/-- No repository is both added and removed. -/
theorem Serves.consistent (hs : u.Serves e cs) (hp : p ∈ u.proxies) (n : String)
    (hadd : p.Asked cs .add n) : ¬p.Asked cs .remove n :=
  hs.not_removed hp (hs.wanted p hp _ _ hadd).2.1

theorem mem_obeyAll {q : Proxy} :
    q ∈ (u.obeyAll cs).proxies ↔ ∃ p ∈ u.proxies, p.obeyAll cs = q := by
  simp only [obeyAll, List.mem_map]

theorem has_obeyAll (k : DepKind) : (u.obeyAll cs).has k = u.has k := by
  simp only [has, obeyAll, List.any_map, Function.comp_def, Proxy.kind_obeyAll]

theorem Covers.obeyAll (hc : u.Covers e) (cs : List PlacedCommand) : (u.obeyAll cs).Covers e := by
  intro k
  rw [has_obeyAll]
  exact hc k

theorem first?_obeyAll (k : DepKind) :
    (u.obeyAll cs).first? k = (u.first? k).map fun p => p.obeyAll cs := by
  simp only [first?, obeyAll, List.find?_map, Function.comp_def, Proxy.kind_obeyAll]

theorem first?_obeyAll_iff (hd : u.DistinctAddresses) (hp : p ∈ u.proxies) {k : DepKind} :
    (u.obeyAll cs).first? k = some (p.obeyAll cs) ↔ u.first? k = some p := by
  rw [first?_obeyAll, Option.map_eq_some_iff]
  constructor
  · rintro ⟨q, hq, heq⟩
    have hsame : q.SameAddress p := by
      constructor
      · rw [← q.path_obeyAll cs, heq, p.path_obeyAll cs]
        exact ModulePath.same_refl _
      · rw [← q.label_obeyAll cs, heq, p.label_obeyAll cs]
    rw [hq, hd.eq_of_sameAddress (mem_of_first? hq).1 hp hsame]
  · intro h
    exact ⟨p, h, rfl⟩

theorem mem_imported_obeyAll {k : DepKind} {n : String} :
    n ∈ (u.obeyAll cs).imported.get k ↔ ∃ p ∈ u.proxies, p.kind = k ∧ n ∈ (p.obeyAll cs).repos := by
  rw [mem_imported]
  constructor
  · rintro ⟨q, hq, hk, hn⟩
    obtain ⟨p, hp, rfl⟩ := mem_obeyAll.mp hq
    exact ⟨p, hp, p.kind_obeyAll cs ▸ hk, hn⟩
  · rintro ⟨p, hp, hk, hn⟩
    exact ⟨_, mem_obeyAll.mpr ⟨p, hp, rfl⟩, (p.kind_obeyAll cs).trans hk, hn⟩

/-- The repositories of a proxy afterwards: those it was asked to add, and those it had under an
alias that was not taken, unless it was asked to drop them. -/
theorem Serves.mem_repos (hs : u.Serves e cs) (hp : p ∈ u.proxies) {n : String} :
    n ∈ (p.obeyAll cs).repos ↔ p.Asked cs .add n ∨
      ∃ key, (key, n) ∈ p.imports.toList ∧ ¬p.Asked cs .add key ∧ ¬p.Asked cs .remove n := by
  rw [Proxy.mem_repos]
  simp only [Proxy.mem_imports_obeyAll (hs.consistent hp)]
  constructor
  · rintro ⟨key, ⟨rfl, hadd⟩ | hkept⟩
    · exact Or.inl hadd
    · exact Or.inr ⟨key, hkept⟩
  · rintro (hadd | ⟨key, hkept⟩)
    · exact ⟨n, Or.inl ⟨rfl, hadd⟩⟩
    · exact ⟨key, Or.inr hkept⟩

theorem Serves.subset (hs : u.Serves e cs) (hp : p ∈ u.proxies) {n : String}
    (hn : n ∈ (p.obeyAll cs).repos) : n ∈ e.get p.kind ∨ (n ∈ p.repos ∧ ¬p.Asked cs .remove n) := by
  rcases (hs.mem_repos hp).mp hn with hadd | ⟨key, hentry, -, hkept⟩
  · exact Or.inl (hs.wanted p hp _ _ hadd).2.1
  · exact Or.inr ⟨Proxy.mem_repos.mpr ⟨key, hentry⟩, hkept⟩

/-- A usage stays fit for commands while a repair is carried out. -/
theorem Editable.obeyAll (hu : u.Editable e) (hs : u.Serves e cs) :
    (u.obeyAll cs).Editable e where
  distinct := hu.distinct.obeyAll cs
  label := by
    intro q hq
    obtain ⟨p, hp, rfl⟩ := mem_obeyAll.mp hq
    rw [Proxy.label_obeyAll]
    exact hu.label p hp
  imported := by
    intro q hq n hn
    obtain ⟨p, hp, rfl⟩ := mem_obeyAll.mp hq
    rcases hs.subset hp hn with he | ⟨himported, -⟩
    · exact hu.expected p.kind n he
    · exact hu.imported p hp n himported
  expected := hu.expected

/-- Where aliases are free, nothing is lost by an addition. -/
theorem Serves.mem_repos_of_free (hs : u.Serves e cs) (hfree : u.FreeAliases e)
    (hp : p ∈ u.proxies) {n : String} :
    n ∈ (p.obeyAll cs).repos ↔
      p.Asked cs .add n ∨ (n ∈ p.repos ∧ ¬p.Asked cs .remove n) := by
  rw [hs.mem_repos hp, Proxy.mem_repos]
  constructor
  · rintro (hadd | ⟨key, hentry, -, hkept⟩)
    · exact Or.inl hadd
    · exact Or.inr ⟨⟨key, hentry⟩, hkept⟩
  · rintro (hadd | ⟨⟨key, hentry⟩, hkept⟩)
    · exact Or.inl hadd
    · have htaken : ¬p.Asked cs .add key := by
        intro hadd
        obtain ⟨hfirst, hmissing⟩ := hs.wanted p hp _ _ hadd
        have hkey : key ∈ (u.missing e).add.get p.kind := mem_missing_add.mpr hmissing
        exact hfree p.kind p hfirst key hkey _ hentry rfl
      exact Or.inr ⟨key, hentry, htaken, hkept⟩

/-- An expected repository is imported afterwards if it was before, or if it was added to the first
proxy of its kind. -/
theorem Serves.mem_imported_of_free (hs : u.Serves e cs) (hfree : u.FreeAliases e) {k : DepKind}
    (hfirst : u.first? k = some p) {n : String} (he : n ∈ e.get k) :
    n ∈ (u.obeyAll cs).imported.get k ↔ n ∈ u.imported.get k ∨ p.Asked cs .add n := by
  rw [mem_imported_obeyAll]
  constructor
  · rintro ⟨q, hq, hk, hn⟩
    rcases (hs.mem_repos_of_free hfree hq).mp hn with hadd | ⟨hn, -⟩
    · have hq' : u.first? k = some q := hk ▸ (hs.wanted q hq _ _ hadd).1
      cases hfirst.symm.trans hq'
      exact Or.inr hadd
    · exact Or.inl (mem_imported.mpr ⟨q, hq, hk, hn⟩)
  · rintro (hold | hadd)
    · obtain ⟨q, hq, rfl, hn⟩ := mem_imported.mp hold
      have hkept := hs.not_removed hq he
      exact ⟨q, hq, rfl, (hs.mem_repos_of_free hfree hq).mpr (Or.inr ⟨hn, hkept⟩)⟩
    · obtain ⟨hp, hk⟩ := mem_of_first? hfirst
      exact ⟨p, hp, hk, (hs.mem_repos hp).mpr (Or.inl hadd)⟩

/-- After a part of a repair, a proxy wants what it wanted before less what it was asked for. -/
theorem Serves.wants_obeyAll_iff (hs : u.Serves e cs) (hd : u.DistinctAddresses)
    (hfree : u.FreeAliases e) (hp : p ∈ u.proxies) {a : Action} {n : String} :
    (u.obeyAll cs).Wants e (p.obeyAll cs) a n ↔ u.Wants e p a n ∧ ¬p.Asked cs a n := by
  cases a with
  | add =>
      simp only [Wants, Proxy.kind_obeyAll, first?_obeyAll_iff hd hp]
      constructor
      · rintro ⟨hfirst, he, hnew⟩
        rw [hs.mem_imported_of_free hfree hfirst he, not_or] at hnew
        exact ⟨⟨hfirst, he, hnew.1⟩, hnew.2⟩
      · rintro ⟨⟨hfirst, he, hold⟩, hnot⟩
        refine ⟨hfirst, he, ?_⟩
        rw [hs.mem_imported_of_free hfree hfirst he, not_or]
        exact ⟨hold, hnot⟩
  | remove =>
      simp only [Wants, Proxy.kind_obeyAll, hs.mem_repos_of_free hfree hp]
      constructor
      · rintro ⟨hadd | ⟨hn, hkept⟩, he⟩
        · exact absurd (hs.wanted p hp _ _ hadd).2.1 he
        · exact ⟨⟨hn, he⟩, hkept⟩
      · rintro ⟨⟨hn, he⟩, hkept⟩
        exact ⟨Or.inr ⟨hn, hkept⟩, he⟩

/-- What a proxy has to add or to drop is a word, and so is its label. -/
theorem Editable.isWord_of_wants (hu : u.Editable e) (hp : p ∈ u.proxies) {a : Action}
    {n : String} (h : u.Wants e p a n) : IsWord p.label ∧ IsWord n := by
  refine ⟨hu.label p hp, ?_⟩
  cases a with
  | add => exact hu.expected p.kind n h.2.1
  | remove => exact hu.imported p hp n h.1

/-- The commands for what is missing can be carried out. -/
theorem sequence_ready (hu : u.Editable e) {c : PlacedCommand}
    (hc : c ∈ (u.missing e).sequence u) :
    c.command.Readable ∧ ∃ p ∈ u.proxies, c.Addresses p := by
  obtain ⟨p, hp, haddr, hne, hwants⟩ := exists_wants_of_mem_sequence hc
  refine ⟨⟨?_, hne, ?_⟩, p, hp, haddr⟩
  · rw [← haddr.2]
    exact hu.label p hp
  · intro n hn
    exact (hu.isWord_of_wants hp (hwants n hn)).2

end Usage

namespace Declaration

variable {d : Declaration} {generated : RepoSet} {e : PerKind RepoSet} {u : Usage} {f : Repair}

/-- The commands of a repair can be carried out and ask for what is wanted. -/
theorem serves_repair (he : d.expected generated = .ok (some e)) (hu : u.Editable e)
    (hf : d.repair? u generated = .ok (some f)) : u.Serves e f.commands.toList := by
  have hready : ∀ c ∈ f.commands.toList,
      c.command.Readable ∧ ∃ p ∈ u.proxies, c.Addresses p := by
    intro c hc
    rw [(of_repair?_eq_some he hf).2.2] at hc
    obtain ⟨pc, hpc, hpath, hcommand⟩ := EditPlan.exists_mem_of_mem_ofList hc
    obtain ⟨hreadable, p, hp, haddr⟩ := Usage.sequence_ready hu hpc
    refine ⟨hcommand ▸ hreadable, p, hp, haddr.1.trans hpath, ?_⟩
    rw [haddr.2, hcommand]
  exact {
    readable := fun c hc => (hready c hc).1
    addressed := fun c hc => (hready c hc).2
    wanted := fun p hp a n h => (asked_repair_iff he hf hu.distinct hp).mp h }

/-- A repair can be applied, and after it no repair is called for. -/
theorem no_repair_after_apply (he : d.expected generated = .ok (some e)) (hu : u.Editable e)
    (hfree : u.FreeAliases e) (hf : d.repair? u generated = .ok (some f)) :
    (∀ c ∈ f.commands.toList, Command.parse c.command.text = .ok c.command ∧
        ∃ p ∈ u.proxies, c.Addresses p) ∧
      ∃ u', u.apply f = .ok u' ∧ d.repair? u' generated = .ok none := by
  have hs := serves_repair he hu hf
  have hc := (covers_of_repair? he hf).obeyAll f.commands.toList
  refine ⟨fun c hc => ⟨Command.parse_text (hs.readable c hc), hs.addressed c hc⟩,
    u.obeyAll f.commands.toList, hs.executeAll hu.distinct, ?_⟩
  apply repair?_eq_none he hc
  rw [Usage.missing_isEmpty_iff hc]
  intro q hq a n hw
  obtain ⟨p, hp, rfl⟩ := Usage.mem_obeyAll.mp hq
  obtain ⟨hwants, hnot⟩ := (hs.wants_obeyAll_iff hu.distinct hfree hp).mp hw
  apply hnot
  exact (asked_repair_iff he hf hu.distinct hp).mpr hwants

theorem mixedUsage_editable : mixedUsage.Editable mixedExpected := by decide

theorem mixedUsage_freeAliases : mixedUsage.FreeAliases mixedExpected := by decide

theorem exists_repair_of_mixedUsage :
    ∃ f, mixedDeclaration.repair? mixedUsage mixedGenerated = .ok (some f) ∧
      f.commands = EditPlan.ofList ((mixedUsage.missing mixedExpected).sequence mixedUsage) :=
  exists_repair mixedDeclaration_expected (by decide) (by decide)

theorem no_repair_after_apply_of_mixedUsage :
    mixedUsage.Editable mixedExpected ∧ mixedUsage.FreeAliases mixedExpected ∧
      ∃ f, mixedDeclaration.repair? mixedUsage mixedGenerated = .ok (some f) ∧
        (∀ c ∈ f.commands.toList, Command.parse c.command.text = .ok c.command ∧
          ∃ p ∈ mixedUsage.proxies, c.Addresses p) ∧
        ∃ u', mixedUsage.apply f = .ok u' ∧
          mixedDeclaration.repair? u' mixedGenerated = .ok none := by
  obtain ⟨f, hf, -⟩ := exists_repair_of_mixedUsage
  exact ⟨mixedUsage_editable, mixedUsage_freeAliases, f, hf,
    no_repair_after_apply mixedDeclaration_expected mixedUsage_editable mixedUsage_freeAliases hf⟩

end Declaration

end ImportRepair
