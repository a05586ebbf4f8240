import ImportRepair.Sorted

/-!
# Sets of repository names

A `RepoSet` is a strictly increasing list of names in code point order, so a set has one
representation: two sets with the same members are equal, and so are the texts made from them.

## Implementation notes

Every operation is described by its members (`mem_union`, `mem_sdiff`, …); `RepoSet.ext` turns such
a description into an equation.
-/

namespace ImportRepair

/-- A set of names, kept as its strictly increasing list. -/
structure RepoSet where
  /-- The members in code point order. -/
  toList : List String
  /-- Each member is below all that follow it. -/
  sorted : toList.Pairwise (· < ·)
  deriving DecidableEq

namespace RepoSet

instance : Membership String RepoSet := ⟨fun s n => n ∈ s.toList⟩

instance (n : String) (s : RepoSet) : Decidable (n ∈ s) :=
  inferInstanceAs (Decidable (n ∈ s.toList))

instance {p : String → Prop} [DecidablePred p] (s : RepoSet) : Decidable (∀ n ∈ s, p n) :=
  inferInstanceAs (Decidable (∀ n ∈ s.toList, p n))

theorem mem_def {n : String} {s : RepoSet} : n ∈ s ↔ n ∈ s.toList := Iff.rfl

/-- A set is determined by its members. -/
@[ext] theorem ext {s t : RepoSet} (h : ∀ n, n ∈ s ↔ n ∈ t) : s = t := by
  cases s with
  | mk l₁ h₁ =>
    cases t with
    | mk l₂ h₂ =>
      have := eq_of_increasing (fun _ _ => String.lt_asymm) h₁ h₂ h
      subst this
      rfl

/-- The empty set. -/
def empty : RepoSet := ⟨[], List.Pairwise.nil⟩

instance : EmptyCollection RepoSet := ⟨empty⟩

@[simp] theorem not_mem_empty (n : String) : n ∉ (∅ : RepoSet) := List.not_mem_nil

theorem ne_empty_of_mem {s : RepoSet} {n : String} (h : n ∈ s) : s ≠ ∅ := by
  rintro rfl
  exact not_mem_empty n h

theorem exists_mem_of_ne_empty {s : RepoSet} (h : s ≠ ∅) : ∃ n, n ∈ s := by
  obtain ⟨_ | ⟨n, ns⟩, hs⟩ := s
  · exact absurd rfl h
  · exact ⟨n, List.mem_cons_self ..⟩

@[simp] theorem toList_empty : (∅ : RepoSet).toList = [] := rfl

/-- Holds for the empty set alone. -/
def isEmpty (s : RepoSet) : Bool := s.toList.isEmpty

@[simp] theorem isEmpty_iff {s : RepoSet} : s.isEmpty = true ↔ s = ∅ := by
  cases s with
  | mk l h => cases l <;> simp [isEmpty, EmptyCollection.emptyCollection, empty]

theorem eq_empty_iff {s : RepoSet} : s = ∅ ↔ ∀ n, n ∉ s := by
  constructor
  · rintro rfl
    exact not_mem_empty
  · intro h
    ext n
    simp [h n]

/-- Put a name into its place in a strictly increasing list. -/
def place (n : String) : List String → List String
  | [] => [n]
  | m :: ms => if n < m then n :: m :: ms else if m < n then m :: place n ms else m :: ms

theorem mem_place {n m : String} {l : List String} : m ∈ place n l ↔ m = n ∨ m ∈ l := by
  induction l with
  | nil => simp [place]
  | cons a l ih =>
    simp only [place]
    split
    · simp
    · split
      · simp only [List.mem_cons, ih]
        constructor
        · rintro (h | h | h) <;> simp [h]
        · rintro (h | h | h) <;> simp [h]
      · rename_i h₁ h₂
        have : n = a := String.le_antisymm (String.not_lt.1 h₂) (String.not_lt.1 h₁)
        subst this
        simp

theorem place_sorted {n : String} {l : List String} (h : l.Pairwise (· < ·)) :
    (place n l).Pairwise (· < ·) := by
  induction l with
  | nil => simp [place]
  | cons a l ih =>
    rw [List.pairwise_cons] at h
    simp only [place]
    split
    · rename_i hlt
      refine List.pairwise_cons.2 ⟨?_, List.pairwise_cons.2 h⟩
      intro b hb
      rcases List.mem_cons.1 hb with rfl | hb
      · exact hlt
      · exact String.lt_trans hlt (h.1 b hb)
    · split
      · rename_i hlt
        refine List.pairwise_cons.2 ⟨?_, ih h.2⟩
        intro b hb
        rcases mem_place.1 hb with rfl | hb
        · exact hlt
        · exact h.1 b hb
      · exact List.pairwise_cons.2 h

/-- Add a name. -/
def insert (n : String) (s : RepoSet) : RepoSet := ⟨place n s.toList, place_sorted s.sorted⟩

@[simp] theorem mem_insert {n m : String} {s : RepoSet} : m ∈ insert n s ↔ m = n ∨ m ∈ s :=
  mem_place

/-- The set of the elements of a list; order and repetition are forgotten. -/
def ofList (l : List String) : RepoSet := l.foldr insert ∅

@[simp] theorem mem_ofList {n : String} {l : List String} : n ∈ ofList l ↔ n ∈ l := by
  induction l with
  | nil => simp [ofList]
  | cons a l ih =>
    show n ∈ insert a (ofList l) ↔ _
    simp [ih]

@[simp] theorem ofList_toList (s : RepoSet) : ofList s.toList = s := by
  ext n
  simp [mem_def (s := s)]

/-- The members that satisfy a test. -/
def filter (p : String → Bool) (s : RepoSet) : RepoSet :=
  ⟨s.toList.filter p, s.sorted.filter p⟩

@[simp] theorem mem_filter {p : String → Bool} {s : RepoSet} {n : String} :
    n ∈ s.filter p ↔ n ∈ s ∧ p n = true :=
  List.mem_filter

instance : Union RepoSet := ⟨fun s t => s.toList.foldr insert t⟩

@[simp] theorem mem_union {s t : RepoSet} {n : String} : n ∈ s ∪ t ↔ n ∈ s ∨ n ∈ t := by
  show n ∈ s.toList.foldr insert t ↔ n ∈ s.toList ∨ n ∈ t
  induction s.toList with
  | nil => simp
  | cons a l ih => simp [ih, or_assoc]

instance : Inter RepoSet := ⟨fun s t => s.filter (fun n => decide (n ∈ t))⟩

@[simp] theorem mem_inter {s t : RepoSet} {n : String} : n ∈ s ∩ t ↔ n ∈ s ∧ n ∈ t := by
  show n ∈ s.filter _ ↔ _
  simp

instance : SDiff RepoSet := ⟨fun s t => s.filter (fun n => decide (n ∉ t))⟩

@[simp] theorem mem_sdiff {s t : RepoSet} {n : String} : n ∈ s \ t ↔ n ∈ s ∧ n ∉ t := by
  show n ∈ s.filter _ ↔ _
  simp

end RepoSet

end ImportRepair
