import ImportRepair.Proofs.Grouping
import ImportRepair.Proofs.PlannedEdits

/-!
# Contents of a plan

A difference and the proxies determine the commands that are due, one after another: an addition for
each kind, then a removal for each proxy that imports what has to go. `plan_outcome` says that a plan
is refused just when a kind with additions has no proxy, that the first such kind is told, and that
every other plan holds the due commands, file by file.

## Implementation notes

`ImportDiff.due` is said of the lists of proxies and imports alone, for differences of any origin.
Additions may be due that no proxy can take; they are left out of it, and the plan is refused.
-/

namespace ImportRepair

namespace ImportDiff

variable {d : ImportDiff} {ps : List Proxy} {k : DepKind}

/-- Imports of a kind are to be added, and no proxy is of the kind. -/
def Strands (d : ImportDiff) (ps : List Proxy) (k : DepKind) : Prop :=
  d.add.get k ≠ ∅ ∧ ∀ p ∈ ps, p.kind ≠ k

/-- What a proxy imports of the repositories that have to go of its kind, alias by alias. -/
def superfluous (d : ImportDiff) (p : Proxy) : List String :=
  p.imports.repos.filter fun n => decide (n ∈ d.remove.get p.kind)

/-- The addition that is due for a kind, at the first proxy of the kind. -/
def dueAdditions (d : ImportDiff) (ps : List Proxy) (k : DepKind) : List PlacedCommand :=
  if d.add.get k = ∅ then []
  else ((ps.filter fun p => p.kind = k).take 1).map fun p =>
    ⟨p.path, ⟨.add, p.label, d.add.get k⟩⟩

/-- The removals that are due, in the order of the proxies. -/
def dueRemovals (d : ImportDiff) (ps : List Proxy) : List PlacedCommand :=
  (ps.filter fun p => d.superfluous p ≠ []).map fun p =>
    ⟨p.path, .ofList .remove p.label (d.superfluous p)⟩

/-- The commands that are due for a difference, one after another. -/
def due (d : ImportDiff) (ps : List Proxy) : List PlacedCommand :=
  d.dueAdditions ps .regular ++ d.dueAdditions ps .dev ++ d.dueRemovals ps

theorem ofList_superfluous (d : ImportDiff) (p : Proxy) :
    RepoSet.ofList (d.superfluous p) = p.repos ∩ d.remove.get p.kind := by
  ext n
  simp [superfluous, Proxy.repos]

theorem superfluous_eq_nil_iff {p : Proxy} :
    d.superfluous p = [] ↔ p.repos ∩ d.remove.get p.kind = ∅ := by
  rw [← ofList_superfluous, RepoSet.eq_empty_iff, List.eq_nil_iff_forall_not_mem]
  simp only [RepoSet.mem_ofList]

theorem toList_addition? (u : Usage) : (d.addition? u k).toList = d.dueAdditions u.proxies k := by
  simp only [addition?, dueAdditions]
  split
  · rfl
  · have hfirst : (u.proxies.filter fun p => p.kind = k).take 1 = (u.first? k).toList := by
      rw [List.take_one, List.head?_filter]
      rfl
    rw [hfirst, Option.toList_map]
    rfl

theorem filterMap_removal? (ps : List Proxy) : ps.filterMap d.removal? = d.dueRemovals ps := by
  induction ps with
  | nil => rfl
  | cons p ps ih =>
      by_cases hp : d.superfluous p = []
      · have hnone : d.removal? p = none := if_pos (superfluous_eq_nil_iff.mp hp)
        rw [List.filterMap_cons_none hnone, ih, dueRemovals, dueRemovals,
          List.filter_cons_of_neg (by simp [hp])]
      · have hsome : d.removal? p =
            some ⟨p.path, .ofList .remove p.label (d.superfluous p)⟩ := by
          rw [removal?, if_neg (mt superfluous_eq_nil_iff.mpr hp), Command.ofList,
            ofList_superfluous]
          rfl
        rw [List.filterMap_cons_some hsome, ih, dueRemovals, dueRemovals,
          List.filter_cons_of_pos (by simp [hp]), List.map_cons]

theorem not_strands_iff : ¬d.Strands ps k ↔ (d.add.get k ≠ ∅ → ∃ p ∈ ps, p.kind = k) := by
  simp [Strands]

theorem additions_of_strands (h : d.Strands ps k) :
    d.additions ps k = .error (.noProxyToAddTo k) := by
  have hnone : ps.find? (fun p => p.kind == k) = none :=
    List.find?_eq_none.mpr fun p hp => by simpa using h.2 p hp
  rw [additions, if_neg h.1, hnone]

theorem additions_of_not_strands (h : ¬d.Strands ps k) :
    d.additions ps k = .ok (d.dueAdditions ps k) := by
  let u : Usage := ⟨"", "", ps⟩
  have hhas : d.add.get k = ∅ ∨ u.has k = true := by
    by_cases hempty : d.add.get k = ∅
    · exact Or.inl hempty
    · obtain ⟨p, hp, hkind⟩ := not_strands_iff.mp h hempty
      exact Or.inr (List.any_eq_true.mpr ⟨p, hp, by simp [hkind]⟩)
  have hadditions := additions_eq_ok hhas
  rwa [toList_addition?] at hadditions

theorem commands_of_strands_regular (h : d.Strands ps .regular) :
    d.commands ps = .error (.noProxyToAddTo .regular) := by
  rw [commands, additions_of_strands h]
  rfl

/-- Regular additions are looked at first. -/
theorem commands_of_strands_dev (hregular : ¬d.Strands ps .regular) (hdev : d.Strands ps .dev) :
    d.commands ps = .error (.noProxyToAddTo .dev) := by
  rw [commands, additions_of_not_strands hregular, additions_of_strands hdev]
  rfl

theorem commands_of_not_strands (h : ∀ k, ¬d.Strands ps k) : d.commands ps = .ok (d.due ps) := by
  rw [commands, additions_of_not_strands (h .regular), additions_of_not_strands (h .dev),
    filterMap_removal?]
  rfl

/-- A plan is made just when every kind with imports to add has a proxy, and otherwise the first kind
without one is told. It holds the commands that are due: a file for each path, in the order and the
spellings in which the paths come first, with the commands for the path in their order. -/
theorem plan_outcome (d : ImportDiff) (ps : List Proxy) :
    ((∃ plan, d.plan ps = .ok plan) ↔ ∀ k, d.add.get k ≠ ∅ → ∃ p ∈ ps, p.kind = k) ∧
      (∀ err, d.plan ps = .error err ↔
        (d.Strands ps .regular ∧ err = .noProxyToAddTo .regular) ∨
          (¬d.Strands ps .regular ∧ d.Strands ps .dev ∧ err = .noProxyToAddTo .dev)) ∧
      ∀ plan, d.plan ps = .ok plan →
        plan.files = (firstSpellings ((d.due ps).map (·.path))).map
            (fun path => ⟨path, commandsFor (d.due ps) path⟩) ∧
          plan.size = (d.due ps).length := by
  simp only [← not_strands_iff, plan]
  by_cases hregular : d.Strands ps .regular
  · have hsome : ¬∀ k, ¬d.Strands ps k := fun h => h .regular hregular
    simp [commands_of_strands_regular hregular, Except.map, hregular, hsome, eq_comm]
  by_cases hdev : d.Strands ps .dev
  · have hsome : ¬∀ k, ¬d.Strands ps k := fun h => h .dev hdev
    simp [commands_of_strands_dev hregular hdev, Except.map, hregular, hdev, hsome, eq_comm]
  · have hnone : ∀ k, ¬d.Strands ps k := DepKind.forall_iff.mpr ⟨hregular, hdev⟩
    rw [commands_of_not_strands hnone]
    refine ⟨iff_of_true ⟨_, rfl⟩ hnone, ?_, ?_⟩
    · simp [Except.map, hregular, hdev]
    · rintro plan hplan
      cases hplan
      exact ⟨EditPlan.files_ofList _, EditPlan.size_ofList _⟩

/-- The two spellings of one path share a file, and `MODULE.bazel` gets both additions before the
removals. -/
theorem plan_outcome_of_mixedUsage :
    ∃ plan, (mixedUsage.missing mixedExpected).plan mixedUsage.proxies = .ok plan ∧
      plan.files.map (·.path) = [⟨"MODULE.bazel"⟩, ⟨"sub/extra.bazel"⟩] ∧
      plan.files.map (fun f => f.commands.map (·.action)) =
        [[.add, .add, .remove, .remove], [.remove, .remove]] ∧
      plan.size = 6 := by
  obtain ⟨hmade, -, hcontents⟩ := plan_outcome (mixedUsage.missing mixedExpected) mixedUsage.proxies
  obtain ⟨plan, hplan⟩ := hmade.mpr (by decide)
  obtain ⟨hfiles, hsize⟩ := hcontents plan hplan
  refine ⟨plan, hplan, ?_, ?_, ?_⟩
  · rw [hfiles]
    decide
  · rw [hfiles]
    decide
  · rw [hsize]
    decide

end ImportDiff

end ImportRepair
