import ImportRepair.Proofs.CommandTargets
import ImportRepair.Proofs.Convergence

/-!
# The usage after a repair

Applying a repair changes alias maps and nothing else. `apply_repair_entries` says entry by entry
what an alias map holds afterwards: what has to go of its kind is gone, what is missing of the kind
stands under its own name in the first proxy of the kind, and the rest is as it was.

## Implementation notes

A proxy is named by its position. The first proxy of a kind is the only one that receives anything,
also where another proxy is equal to it in all else.
-/

namespace ImportRepair

namespace Usage

/-- A repository that is missing of a kind is added to the proxy at a position, which is the first
one of the kind. -/
def Receives (u : Usage) (e : PerKind RepoSet) (i : Nat) (k : DepKind) (n : String) : Prop :=
  u.firstPosition? k = some i ∧ n ∈ (u.missing e).add.get k

variable {u : Usage} {e : PerKind RepoSet} {i : Nat} {p : Proxy}

theorem DistinctAddresses.position_unique (hd : u.DistinctAddresses) {j : Nat}
    (hi : u.proxies[i]? = some p) (hj : u.proxies[j]? = some p) : i = j := by
  have hsame : p.SameAddress p := ⟨ModulePath.same_refl _, rfl⟩
  rcases Nat.lt_trichotomy i j with hij | hij | hji
  · exact absurd ⟨p, hj, i, hij, p, hi, hsame⟩ (hd.not_shadowed j)
  · exact hij
  · exact absurd ⟨p, hi, j, hji, p, hj, hsame⟩ (hd.not_shadowed i)

theorem DistinctAddresses.first?_eq_some_iff (hd : u.DistinctAddresses)
    (hp : u.proxies[i]? = some p) (k : DepKind) :
    u.first? k = some p ↔ u.firstPosition? k = some i := by
  rw [first?_eq_some_iff_firstPosition?]
  constructor
  · rintro ⟨j, hj, hpj⟩
    rw [hd.position_unique hp hpj]
    exact hj
  · intro hi
    exact ⟨i, hi, hp⟩

/-- What a proxy has to add is what its position receives. -/
theorem DistinctAddresses.wants_add_iff (hd : u.DistinctAddresses) (hp : u.proxies[i]? = some p)
    {n : String} : u.Wants e p .add n ↔ u.Receives e i p.kind n := by
  simp only [Wants, Receives, hd.first?_eq_some_iff hp, mem_missing_add]

/-- What a proxy has to drop is what it imports of the repositories that have to go of its kind. -/
theorem wants_remove_iff (hp : p ∈ u.proxies) {n : String} :
    u.Wants e p .remove n ↔ n ∈ p.repos ∧ n ∈ (u.missing e).remove.get p.kind := by
  simp only [Wants, mem_missing_remove]
  constructor
  · rintro ⟨hrepo, he⟩
    exact ⟨hrepo, mem_imported.mpr ⟨p, hp, rfl, hrepo⟩, he⟩
  · rintro ⟨hrepo, -, he⟩
    exact ⟨hrepo, he⟩

end Usage

namespace Declaration

variable {d : Declaration} {generated : RepoSet} {e : PerKind RepoSet} {u : Usage} {f : Repair}

/-- The entries of the proxy at a position once it has obeyed the commands of a repair. -/
theorem mem_imports_obeyAll_repair (he : d.expected generated = .ok (some e)) (hu : u.Editable e)
    (hf : d.repair? u generated = .ok (some f)) {i : Nat} {p : Proxy}
    (hp : u.proxies[i]? = some p) {key repo : String} :
    (key, repo) ∈ (p.obeyAll f.commands.toList).imports.toList ↔
      ((key, repo) ∈ p.imports.toList ∧ repo ∉ (u.missing e).remove.get p.kind ∧
          ¬u.Receives e i p.kind key) ∨
        (u.Receives e i p.kind key ∧ repo = key) := by
  have hmem : p ∈ u.proxies := List.mem_of_getElem? hp
  have hadd : p.Asked f.commands.toList .add key ↔ u.Receives e i p.kind key := by
    rw [asked_repair_iff he hf hu.distinct hmem, hu.distinct.wants_add_iff hp]
  have hremove : p.Asked f.commands.toList .remove repo ↔
      repo ∈ p.repos ∧ repo ∈ (u.missing e).remove.get p.kind := by
    rw [asked_repair_iff he hf hu.distinct hmem, Usage.wants_remove_iff hmem]
  have hs := serves_repair he hu hf
  rw [Proxy.mem_imports_obeyAll (hs.consistent hmem), hadd, hremove]
  constructor
  · rintro (⟨heq, hreceives⟩ | ⟨hentry, hfree, hkept⟩)
    · exact Or.inr ⟨hreceives, heq.symm⟩
    · have hrepo : repo ∈ p.repos := Proxy.mem_repos.mpr ⟨key, hentry⟩
      exact Or.inl ⟨hentry, fun hgo => hkept ⟨hrepo, hgo⟩, hfree⟩
  · rintro (⟨hentry, hkept, hfree⟩ | ⟨hreceives, rfl⟩)
    · exact Or.inr ⟨hentry, hfree, fun hgo => hkept hgo.2⟩
    · exact Or.inl ⟨rfl, hreceives⟩

/-- A repair can be applied. It leaves the extension, the number and the order of the proxies, and
all of each proxy but its alias map. The map keeps the entries whose repository does not have to go
of the kind and whose alias is not taken, and gets an entry for each repository that the position
receives, under its own name. So an expected import stays as it is unless its alias is taken. -/
theorem apply_repair_entries (he : d.expected generated = .ok (some e)) (hu : u.Editable e)
    (hf : d.repair? u generated = .ok (some f)) :
    ∃ u', u.apply f = .ok u' ∧ u'.bzlFile = u.bzlFile ∧ u'.extensionName = u.extensionName ∧
      u'.proxies.length = u.proxies.length ∧
      ∀ i p, u.proxies[i]? = some p → ∃ p', u'.proxies[i]? = some p' ∧
        p'.path = p.path ∧ p'.name = p.name ∧ p'.kind = p.kind ∧ p'.location = p.location ∧
        (∀ key repo, (key, repo) ∈ p'.imports.toList ↔
          ((key, repo) ∈ p.imports.toList ∧ repo ∉ (u.missing e).remove.get p.kind ∧
              ¬u.Receives e i p.kind key) ∨
            (u.Receives e i p.kind key ∧ repo = key)) ∧
        ∀ key repo, (key, repo) ∈ p.imports.toList → repo ∈ e.get p.kind →
          (key, repo) ∈ p'.imports.toList ∨
            (u.Receives e i p.kind key ∧ (key, key) ∈ p'.imports.toList) := by
  refine ⟨u.obeyAll f.commands.toList, (serves_repair he hu hf).executeAll hu.distinct, rfl, rfl,
    List.length_map .., ?_⟩
  intro i p hp
  have hframe := p.obeyAll_eq f.commands.toList
  refine ⟨p.obeyAll f.commands.toList, ?_, p.path_obeyAll _, p.name_obeyAll _, p.kind_obeyAll _,
    by rw [hframe], fun key repo => mem_imports_obeyAll_repair he hu hf hp, ?_⟩
  · simp only [Usage.obeyAll, List.getElem?_map, hp, Option.map_some]
  · intro key repo hentry hexpected
    by_cases hreceives : u.Receives e i p.kind key
    · have hnew := (mem_imports_obeyAll_repair he hu hf hp).mpr (Or.inr ⟨hreceives, rfl⟩)
      exact Or.inr ⟨hreceives, hnew⟩
    · have hkept : repo ∉ (u.missing e).remove.get p.kind := by
        intro hgo
        exact (Usage.mem_missing_remove.mp hgo).2 hexpected
      exact Or.inl ((mem_imports_obeyAll_repair he hu hf hp).mpr
        (Or.inl ⟨hentry, hkept, hreceives⟩))

/-- The first proxy loses `b`, which is expected, to the alias `a`, and drops `d`. -/
theorem apply_repair_entries_of_collidingUsage :
    collidingUsage.Editable mixedExpected ∧
      ∃ f u' p', mixedDeclaration.repair? collidingUsage mixedGenerated = .ok (some f) ∧
        collidingUsage.apply f = .ok u' ∧ u'.proxies[0]? = some p' ∧ p'.name = "ext" ∧
        p'.imports = .ofList [("a", "a")] := by
  have heditable : collidingUsage.Editable mixedExpected := by decide
  obtain ⟨f, hf, -⟩ := exists_repair (u := collidingUsage) mixedDeclaration_expected
    (by decide) (by decide)
  obtain ⟨u', happly, -, -, -, hproxies⟩ :=
    apply_repair_entries mixedDeclaration_expected heditable hf
  obtain ⟨p', hp', -, hname, -, -, hentries, -⟩ := hproxies 0 _ rfl
  refine ⟨heditable, f, u', p', hf, happly, hp', hname, ?_⟩
  have hfirst : collidingUsage.firstPosition? .regular = some 0 := by decide
  have hadd : (collidingUsage.missing mixedExpected).add.get .regular = .ofList ["a"] := by decide
  have hremove : (collidingUsage.missing mixedExpected).remove.get .regular = .ofList ["d"] := by
    decide
  have hbefore : (AliasMap.ofList [("a", "b"), ("my_d", "d")]).toList =
      [("a", "b"), ("my_d", "d")] := by decide
  have hafter : (AliasMap.ofList [("a", "a")]).toList = [("a", "a")] := by decide
  ext ⟨key, repo⟩
  rw [hentries, hbefore, hafter]
  simp only [Usage.Receives, hfirst, hadd, hremove, RepoSet.mem_ofList, List.mem_cons,
    List.not_mem_nil, or_false, Prod.mk.injEq, true_and]
  grind

end Declaration

end ImportRepair
