import ImportRepair.Proofs.PartialRepair

/-!
# Repeated repairs

An addition may take the alias of an import that is still expected, so that one repair is followed
by another. Repairing and applying in turn comes to an end all the same: after the first round no
proxy imports what is not expected, and in every round that adds repositories of a kind, more of the
expected ones stand under their own names in the first proxy of the kind.

## Implementation notes

`Usage.unsettled` collects the expected names that do not stand under themselves yet. It is the
measure of a kind as long as imports of the kind are missing; once none is missing, none will be.
-/

namespace ImportRepair

/-- What can go wrong while repairs are made and applied in turn. -/
inductive SettleError
  | repair (e : RepairError)
  | apply (e : ApplyError)
  deriving DecidableEq

/-- Make repairs and apply them in turn until no repair is called for. The result is the usage that
came out, or none if a repair is called for after as many applications as the limit says. -/
def Declaration.settle (d : Declaration) (generated : RepoSet) :
    Nat → Usage → Except SettleError (Option Usage)
  | 0, u =>
    match d.repair? u generated with
    | .error e => .error (.repair e)
    | .ok none => .ok (some u)
    | .ok (some _) => .ok none
  | limit + 1, u =>
    match d.repair? u generated with
    | .error e => .error (.repair e)
    | .ok none => .ok (some u)
    | .ok (some f) =>
      match u.apply f with
      | .error e => .error (.apply e)
      | .ok u' => d.settle generated limit u'

/-- A set with fewer members has a shorter list. -/
theorem RepoSet.length_lt_of_subset {s t : RepoSet} (h : ∀ n ∈ s, n ∈ t) {m : String}
    (hm : m ∈ t) (hm' : m ∉ s) : s.toList.length < t.toList.length := by
  have hfilter : s = t.filter fun n => decide (n ∈ s) := by
    ext n
    simp only [mem_filter, decide_eq_true_eq]
    exact ⟨fun hn => ⟨h n hn, hn⟩, And.right⟩
  have hlist : s.toList = t.toList.filter fun n => decide (n ∈ s) :=
    congrArg RepoSet.toList hfilter
  rw [hlist, List.length_filter_lt_length_iff_exists]
  exact ⟨m, hm, by simpa using hm'⟩

namespace Usage

/-- No proxy imports what is not expected of its kind. -/
def Clean (u : Usage) (e : PerKind RepoSet) : Prop :=
  ∀ p ∈ u.proxies, ∀ n ∈ p.repos, n ∈ e.get p.kind

/-- Everything that is expected of a kind is imported. -/
def Supplies (u : Usage) (e : PerKind RepoSet) (k : DepKind) : Prop :=
  ∀ n ∈ e.get k, n ∈ u.imported.get k

/-- The expected names of a kind that the first proxy of the kind does not import under
themselves. -/
def unsettled (u : Usage) (e : PerKind RepoSet) (k : DepKind) : RepoSet :=
  (e.get k).filter fun n => (u.first? k).all fun p => decide ((n, n) ∉ p.imports.toList)

variable {u : Usage} {e : PerKind RepoSet} {cs : List PlacedCommand}

theorem mem_unsettled {k : DepKind} {n : String} :
    n ∈ u.unsettled e k ↔
      n ∈ e.get k ∧ ∀ p, u.first? k = some p → (n, n) ∉ p.imports.toList := by
  simp only [unsettled, RepoSet.mem_filter]
  cases u.first? k with
  | none => simp
  | some p => simp

theorem length_unsettled_le (k : DepKind) :
    (u.unsettled e k).toList.length ≤ (e.get k).toList.length :=
  List.length_filter_le _ _

/-- A clean usage that supplies both kinds needs no repair. -/
theorem missing_isEmpty_of_supplies (hc : u.Covers e) (hclean : u.Clean e)
    (hs : ∀ k, u.Supplies e k) : (u.missing e).isEmpty = true := by
  rw [missing_isEmpty_iff hc]
  intro p hp a n hw
  cases a with
  | add => exact hw.2.2 (hs p.kind n hw.2.1)
  | remove => exact hw.2 (hclean p hp n hw.1)

/-- A kind whose expected names all stand under themselves is supplied. -/
theorem supplies_of_unsettled_eq_empty (hc : u.Covers e) {k : DepKind}
    (h : u.unsettled e k = ∅) : u.Supplies e k := by
  intro n hn
  obtain ⟨p, hp⟩ := hc.exists_first? hn
  obtain ⟨hmem, hk⟩ := mem_of_first? hp
  by_cases hentry : (n, n) ∈ p.imports.toList
  · exact mem_imported.mpr ⟨p, hmem, hk, Proxy.mem_repos.mpr ⟨n, hentry⟩⟩
  · have hunsettled : n ∈ u.unsettled e k := by
      apply mem_unsettled.mpr
      refine ⟨hn, ?_⟩
      intro q hq
      cases hp.symm.trans hq
      exact hentry
    exact absurd h (RepoSet.ne_empty_of_mem hunsettled)

/-- Commands that serve a repair and ask for all that is wanted. -/
structure Completes (u : Usage) (e : PerKind RepoSet) (cs : List PlacedCommand) : Prop
    extends u.Serves e cs where
  asked : ∀ p ∈ u.proxies, ∀ a n, u.Wants e p a n → p.Asked cs a n

theorem Completes.clean (hs : u.Completes e cs) : (u.obeyAll cs).Clean e := by
  intro q hq n hn
  obtain ⟨p, hp, rfl⟩ := mem_obeyAll.mp hq
  rw [Proxy.kind_obeyAll]
  by_cases he : n ∈ e.get p.kind
  · exact he
  · obtain ⟨hrepo, hkept⟩ := (hs.subset hp hn).resolve_left he
    exact absurd (hs.asked p hp .remove n ⟨hrepo, he⟩) hkept

/-- Nothing is lost of a kind to which nothing is added. -/
theorem Serves.supplies (hs : u.Serves e cs) {k : DepKind} (h : u.Supplies e k) :
    (u.obeyAll cs).Supplies e k := by
  intro n hn
  obtain ⟨p, hp, rfl, hrepo⟩ := mem_imported.mp (h n hn)
  obtain ⟨key, hentry⟩ := Proxy.mem_repos.mp hrepo
  have hfree : ¬p.Asked cs .add key := by
    intro hadd
    obtain ⟨-, he, hnew⟩ := hs.wanted p hp _ _ hadd
    exact hnew (h key he)
  exact mem_imported_obeyAll.mpr ⟨p, hp, rfl,
    (hs.mem_repos hp).mpr (Or.inr ⟨key, hentry, hfree, hs.not_removed hp hn⟩)⟩

/-- A name that stands under itself stays. -/
theorem Serves.unsettled_subset (hs : u.Serves e cs) {k : DepKind} {n : String}
    (hn : n ∈ (u.obeyAll cs).unsettled e k) : n ∈ u.unsettled e k := by
  obtain ⟨he, hnew⟩ := mem_unsettled.mp hn
  apply mem_unsettled.mpr
  refine ⟨he, ?_⟩
  intro p hp hentry
  obtain ⟨hmem, rfl⟩ := mem_of_first? hp
  have hfirst : (u.obeyAll cs).first? p.kind = some (p.obeyAll cs) := by
    rw [first?_obeyAll, hp, Option.map_some]
  have hold : n ∈ u.imported.get p.kind :=
    mem_imported.mpr ⟨p, hmem, rfl, Proxy.mem_repos.mpr ⟨n, hentry⟩⟩
  have hadd : ¬p.Asked cs .add n := fun h => (hs.wanted p hmem _ _ h).2.2 hold
  apply hnew _ hfirst
  apply (Proxy.mem_imports_obeyAll (hs.consistent hmem)).mpr
  exact Or.inr ⟨hentry, hadd, hs.not_removed hmem he⟩

/-- A kind of which imports are missing has fewer unsettled names after a round. -/
theorem Completes.length_unsettled_lt (hs : u.Completes e cs) (hc : u.Covers e) {k : DepKind}
    (h : ¬u.Supplies e k) :
    ((u.obeyAll cs).unsettled e k).toList.length < (u.unsettled e k).toList.length := by
  obtain ⟨n, he, hnew⟩ : ∃ n, n ∈ e.get k ∧ n ∉ u.imported.get k := by
    simpa only [Supplies, Classical.not_forall, exists_prop] using h
  obtain ⟨p, hp⟩ := hc.exists_first? he
  obtain ⟨hmem, rfl⟩ := mem_of_first? hp
  have hbefore : n ∈ u.unsettled e p.kind := by
    apply mem_unsettled.mpr
    refine ⟨he, ?_⟩
    intro q hq hentry
    obtain ⟨hq', hk⟩ := mem_of_first? hq
    apply hnew
    exact mem_imported.mpr ⟨q, hq', hk, Proxy.mem_repos.mpr ⟨n, hentry⟩⟩
  have hafter : n ∉ (u.obeyAll cs).unsettled e p.kind := by
    intro hn
    have hfirst : (u.obeyAll cs).first? p.kind = some (p.obeyAll cs) := by
      rw [first?_obeyAll, hp, Option.map_some]
    have hadd : p.Asked cs .add n := hs.asked p hmem .add n ⟨hp, he, hnew⟩
    apply (mem_unsettled.mp hn).2 _ hfirst
    apply (Proxy.mem_imports_obeyAll (hs.consistent hmem)).mpr
    exact Or.inl ⟨rfl, hadd⟩
  apply RepoSet.length_lt_of_subset _ hbefore hafter
  intro m hm
  exact hs.unsettled_subset hm

end Usage

namespace Declaration

variable {d : Declaration} {generated : RepoSet} {e : PerKind RepoSet} {u : Usage} {f : Repair}

theorem completes_repair (he : d.expected generated = .ok (some e)) (hu : u.Editable e)
    (hf : d.repair? u generated = .ok (some f)) : u.Completes e f.commands.toList where
  toServes := serves_repair he hu hf
  asked := fun _ hp _ _ hw => (asked_repair_iff he hf hu.distinct hp).mpr hw

theorem settle_of_repair?_eq_none (h : d.repair? u generated = .ok none) (limit : Nat) :
    d.settle generated limit u = .ok (some u) := by
  cases limit with
  | zero => simp only [settle, h]
  | succ limit => simp only [settle, h]

/-- A limit is enough if it is one for every kind of which imports are missing, and if it admits a
round in which superfluous imports go. -/
theorem exists_settled (he : d.expected generated = .ok (some e)) (limit : Nat) (hc : u.Covers e)
    (hu : u.Editable e) (hclean : 0 < limit ∨ u.Clean e)
    (hlimit : ∀ k, u.Supplies e k ∨ (u.unsettled e k).toList.length ≤ limit) :
    ∃ u', d.settle generated limit u = .ok (some u') ∧ d.repair? u' generated = .ok none := by
  induction limit generalizing u with
  | zero =>
      have hs : ∀ k, u.Supplies e k := by
        intro k
        rcases hlimit k with hk | hk
        · exact hk
        · apply Usage.supplies_of_unsettled_eq_empty hc
          rw [← RepoSet.isEmpty_iff]
          exact List.isEmpty_iff_length_eq_zero.mpr (Nat.le_zero.mp hk)
      have hempty := Usage.missing_isEmpty_of_supplies hc
        (hclean.resolve_left (Nat.lt_irrefl 0)) hs
      have hnone := repair?_eq_none he hc hempty
      exact ⟨u, settle_of_repair?_eq_none hnone 0, hnone⟩
  | succ limit ih =>
      by_cases hempty : (u.missing e).isEmpty = true
      · have hnone := repair?_eq_none he hc hempty
        exact ⟨u, settle_of_repair?_eq_none hnone _, hnone⟩
      · obtain ⟨f, hf, -⟩ := exists_repair he hc hempty
        have hs := completes_repair he hu hf
        have happly : u.apply f = .ok (u.obeyAll f.commands.toList) := hs.executeAll hu.distinct
        have hlimit' : ∀ k, (u.obeyAll f.commands.toList).Supplies e k ∨
            ((u.obeyAll f.commands.toList).unsettled e k).toList.length ≤ limit := by
          intro k
          by_cases hk : u.Supplies e k
          · exact Or.inl (hs.supplies hk)
          · have hlt := hs.length_unsettled_lt hc hk
            have hle := (hlimit k).resolve_left hk
            exact Or.inr (by omega)
        obtain ⟨u', hsettle, hnone⟩ :=
          ih (hc.obeyAll _) (hu.obeyAll hs.toServes) (Or.inr hs.clean) hlimit'
        refine ⟨u', ?_, hnone⟩
        simp only [settle, hf, happly, hsettle]

/-- Making and applying repairs in turn ends, without an error, after at most as many applications as
there are expected repositories of a kind, and one. -/
theorem settle_within_expected (he : d.expected generated = .ok (some e)) (hc : u.Covers e)
    (hu : u.Editable e) :
    ∃ u', d.settle generated
        (max 1 (max e.regular.toList.length e.dev.toList.length)) u = .ok (some u') ∧
      d.repair? u' generated = .ok none := by
  apply exists_settled he _ hc hu
  · left
    omega
  · intro k
    right
    calc
      (u.unsettled e k).toList.length ≤ (e.get k).toList.length := u.length_unsettled_le k
      _ ≤ max 1 (max e.regular.toList.length e.dev.toList.length) := by
        cases k
        · rw [PerKind.get_regular]
          omega
        · rw [PerKind.get_dev]
          omega

/-- A usage in which the addition of `a` takes the alias of `b`, which is expected as well. -/
def collidingUsage : Usage where
  bzlFile := "@ext_mod//:extensions.bzl"
  extensionName := "ext"
  proxies := [
    { path := ⟨"MODULE.bazel"⟩, name := "ext", location := ⟨"MODULE.bazel", 10, 7⟩
      imports := .ofList [("a", "b"), ("my_d", "d")] },
    { path := ⟨"MODULE.bazel"⟩, kind := .dev, location := ⟨"MODULE.bazel", 20, 11⟩
      imports := .ofList [("c", "e")] }]

theorem settle_within_expected_of_collidingUsage :
    collidingUsage.Covers mixedExpected ∧ collidingUsage.Editable mixedExpected ∧
      ¬collidingUsage.FreeAliases mixedExpected ∧
      mixedDeclaration.settle mixedGenerated 1 collidingUsage = .ok none ∧
      ∃ u', mixedDeclaration.settle mixedGenerated 2 collidingUsage = .ok (some u') ∧
        mixedDeclaration.repair? u' mixedGenerated = .ok none := by
  have hcovers : collidingUsage.Covers mixedExpected := by decide
  have heditable : collidingUsage.Editable mixedExpected := by decide
  exact ⟨hcovers, heditable, by decide, by rfl,
    settle_within_expected mixedDeclaration_expected hcovers heditable⟩

end Declaration

end ImportRepair
