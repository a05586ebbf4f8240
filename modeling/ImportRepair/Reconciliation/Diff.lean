import ImportRepair.DepKind

/-!
# Differences of imports

The imports to add and to remove so that actual imports become the expected ones, kind by kind.
-/

namespace ImportRepair

/-- The imports to add and to remove, of each kind. -/
structure ImportDiff where
  add : PerKind RepoSet
  remove : PerKind RepoSet
  deriving DecidableEq

namespace ImportDiff

/-- What has to change for the actual imports to be the expected ones. -/
def between (expected actual : PerKind RepoSet) : ImportDiff where
  add := .of fun k => expected.get k \ actual.get k
  remove := .of fun k => actual.get k \ expected.get k

/-- Holds when nothing has to change. -/
def isEmpty (d : ImportDiff) : Bool :=
  d.add.regular.isEmpty && d.remove.regular.isEmpty && d.add.dev.isEmpty && d.remove.dev.isEmpty

theorem isEmpty_iff {d : ImportDiff} :
    d.isEmpty = true ↔ ∀ k, d.add.get k = ∅ ∧ d.remove.get k = ∅ := by
  simp only [isEmpty, Bool.and_eq_true, RepoSet.isEmpty_iff]
  constructor
  · rintro ⟨⟨⟨h₁, h₂⟩, h₃⟩, h₄⟩ (_ | _)
    · exact ⟨h₁, h₂⟩
    · exact ⟨h₃, h₄⟩
  · intro h
    exact ⟨⟨⟨(h .regular).1, (h .regular).2⟩, (h .dev).1⟩, (h .dev).2⟩

end ImportDiff

end ImportRepair
