import ImportRepair.RepoSet

/-!
# Kinds of dependencies

A direct dependency of the root module is a regular one or a dev one. Declarations, imports and
differences between them come in such pairs.
-/

namespace ImportRepair

/-- The two kinds of direct dependencies. -/
inductive DepKind
  | regular
  | dev
  deriving DecidableEq, Repr

namespace DepKind

/-- The kind that the flag `dev_dependency` of a proxy stands for. -/
def ofFlag (dev : Bool) : DepKind := if dev then .dev else .regular

/-- The flag `dev_dependency` of a kind. -/
def isDev : DepKind → Bool
  | .regular => false
  | .dev => true

@[simp] theorem ofFlag_isDev (k : DepKind) : ofFlag k.isDev = k := by cases k <;> rfl

@[simp] theorem isDev_ofFlag (dev : Bool) : (ofFlag dev).isDev = dev := by cases dev <;> rfl

theorem forall_iff {p : DepKind → Prop} : (∀ k, p k) ↔ p .regular ∧ p .dev :=
  ⟨fun h => ⟨h .regular, h .dev⟩, fun h k => by cases k <;> simp [h]⟩

instance {p : DepKind → Prop} [DecidablePred p] : Decidable (∀ k, p k) :=
  decidable_of_iff _ forall_iff.symm

/-- The name under which an extension declares its dependencies of a kind. -/
def attributeName : DepKind → String
  | .regular => "root_module_direct_deps"
  | .dev => "root_module_direct_dev_deps"

end DepKind

/-- One value for each kind of dependencies. -/
structure PerKind (α : Type) where
  regular : α
  dev : α
  deriving DecidableEq, Repr

namespace PerKind

/-- The value for a kind. -/
def get {α : Type} (p : PerKind α) : DepKind → α
  | .regular => p.regular
  | .dev => p.dev

@[simp] theorem get_regular {α : Type} (p : PerKind α) : p.get .regular = p.regular := rfl

@[simp] theorem get_dev {α : Type} (p : PerKind α) : p.get .dev = p.dev := rfl

/-- The pair with the given value for each kind. -/
def of {α : Type} (f : DepKind → α) : PerKind α := ⟨f .regular, f .dev⟩

@[simp] theorem get_of {α : Type} (f : DepKind → α) (k : DepKind) : (of f).get k = f k := by
  cases k <;> rfl

@[ext] theorem ext {α : Type} {p q : PerKind α} (h : ∀ k, p.get k = q.get k) : p = q := by
  cases p
  cases q
  have hr := h .regular
  have hd := h .dev
  simp only [get_regular, get_dev] at hr hd
  rw [hr, hd]

theorem eq_iff {α : Type} {p q : PerKind α} : p = q ↔ p.regular = q.regular ∧ p.dev = q.dev := by
  cases p
  cases q
  simp

/-- The names that stand for either kind. -/
def either (p : PerKind RepoSet) : RepoSet := p.regular ∪ p.dev

@[simp] theorem mem_either {p : PerKind RepoSet} {n : String} :
    n ∈ p.either ↔ ∃ k, n ∈ p.get k := by
  simp only [either, RepoSet.mem_union]
  constructor
  · rintro (h | h)
    · exact ⟨.regular, h⟩
    · exact ⟨.dev, h⟩
  · rintro ⟨_ | _, h⟩
    · exact Or.inl h
    · exact Or.inr h

end PerKind

end ImportRepair
