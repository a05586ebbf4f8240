import ImportRepair.Declaration.Basic
import ImportRepair.Repair.Error

/-!
# Expected imports

A declaration and the set of generated repositories determine which repositories the root module
should import, of each kind, unless the declaration has no opinion.
-/

namespace ImportRepair

/-- Refuse a list with names that were not generated. -/
def requireGenerated (generated : RepoSet) (kind : DepKind) (names : List String) :
    Except RepairError Unit :=
  match names.filter fun n => decide (n ∉ generated) with
  | [] => .ok ()
  | unknown => .error (.unknownRepos kind unknown)

theorem requireGenerated_eq_ok_iff {generated : RepoSet} {kind : DepKind} {names : List String} :
    requireGenerated generated kind names = .ok () ↔ ∀ n ∈ names, n ∈ generated := by
  simp only [requireGenerated]
  split
  · rename_i h
    simpa [List.filter_eq_nil_iff] using h
  · rename_i h
    simp only [reduceCtorEq, false_iff]
    intro hall
    exact h (List.filter_eq_nil_iff.2 fun n hn => by simp [hall n hn])

namespace Declaration

/-- The imports of one kind that a declaration calls for, unless it has no opinion. -/
def expectedOf (d : Declaration) (generated : RepoSet) (kind : DepKind) :
    Except RepairError (Option RepoSet) :=
  match d.opinion with
  | .none => .ok none
  | .all claimed => .ok (some (if kind = claimed then generated else ∅))
  | .listed deps => do
    requireGenerated generated kind (deps.get kind)
    return some (RepoSet.ofList (deps.get kind))

/-- The imports that a declaration calls for; dev imports are looked at first. -/
def expected (d : Declaration) (generated : RepoSet) :
    Except RepairError (Option (PerKind RepoSet)) := do
  let dev ← d.expectedOf generated .dev
  let regular ← d.expectedOf generated .regular
  match regular, dev with
  | some regular, some dev => return some ⟨regular, dev⟩
  | none, none => return none
  | _, _ => .error .oneKindAlone

end Declaration

end ImportRepair
