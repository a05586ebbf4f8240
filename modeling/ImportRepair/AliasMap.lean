import ImportRepair.RepoSet

/-!
# Alias maps

An alias map says under which local names a proxy imports which repositories. It holds one entry
per alias, in code point order of the aliases; one repository may stand under several aliases.

## Implementation notes

Entries are described by `mem_insert`, `mem_erase` and `mem_withoutRepos`; `AliasMap.ext` turns a
description of the entries into an equation.
-/

namespace ImportRepair

/-- Entries `(alias, repository)` with strictly increasing aliases. -/
structure AliasMap where
  /-- The entries in code point order of their aliases. -/
  toList : List (String × String)
  /-- The alias of each entry is below the aliases of all that follow it. -/
  sorted : toList.Pairwise (fun a b => a.1 < b.1)
  deriving DecidableEq

namespace AliasMap

/-- A map is determined by its entries. -/
@[ext] theorem ext {m₁ m₂ : AliasMap} (h : ∀ e, e ∈ m₁.toList ↔ e ∈ m₂.toList) : m₁ = m₂ := by
  cases m₁ with
  | mk l₁ h₁ =>
    cases m₂ with
    | mk l₂ h₂ =>
      have := eq_of_increasing (fun _ _ => String.lt_asymm) h₁ h₂ h
      subst this
      rfl

/-- The map without entries. -/
def empty : AliasMap := ⟨[], List.Pairwise.nil⟩

instance : EmptyCollection AliasMap := ⟨empty⟩

@[simp] theorem toList_empty : (∅ : AliasMap).toList = [] := rfl

/-- Put an entry into its place; an entry with the same alias gives way. -/
def place (key repo : String) : List (String × String) → List (String × String)
  | [] => [(key, repo)]
  | e :: es =>
    if key < e.1 then (key, repo) :: e :: es
    else if e.1 < key then e :: place key repo es
    else (key, repo) :: es

theorem mem_place_imp {key repo : String} {l : List (String × String)} {e : String × String}
    (h : e ∈ place key repo l) : e = (key, repo) ∨ e ∈ l := by
  induction l with
  | nil => simpa [place] using h
  | cons a l ih =>
    simp only [place] at h
    split at h
    · simpa using h
    · split at h
      · rcases List.mem_cons.1 h with rfl | h
        · simp
        · rcases ih h with h | h <;> simp [h]
      · rcases List.mem_cons.1 h with rfl | h
        · simp
        · simp [h]

theorem place_sorted {key repo : String} {l : List (String × String)}
    (h : l.Pairwise (fun a b => a.1 < b.1)) :
    (place key repo l).Pairwise (fun a b => a.1 < b.1) := by
  induction l with
  | nil => simp [place]
  | cons a l ih =>
    rw [List.pairwise_cons] at h
    simp only [place]
    split
    · rename_i hlt
      refine List.pairwise_cons.2 ⟨?_, List.pairwise_cons.2 h⟩
      intro b hb
      rcases List.mem_cons.1 hb with rfl | hb
      · exact hlt
      · exact String.lt_trans hlt (h.1 b hb)
    · split
      · rename_i hlt
        refine List.pairwise_cons.2 ⟨?_, ih h.2⟩
        intro b hb
        rcases mem_place_imp hb with rfl | hb
        · exact hlt
        · exact h.1 b hb
      · rename_i h₁ h₂
        have heq : key = a.1 := String.le_antisymm (String.not_lt.1 h₂) (String.not_lt.1 h₁)
        refine List.pairwise_cons.2 ⟨?_, h.2⟩
        intro b hb
        show key < b.1
        rw [heq]
        exact h.1 b hb

theorem mem_place {key repo : String} {l : List (String × String)}
    (h : l.Pairwise (fun a b => a.1 < b.1)) {e : String × String} :
    e ∈ place key repo l ↔ e = (key, repo) ∨ (e.1 ≠ key ∧ e ∈ l) := by
  induction l with
  | nil => simp [place]
  | cons a l ih =>
    rw [List.pairwise_cons] at h
    have hne : ∀ b ∈ l, b.1 ≠ a.1 := fun b hb heq =>
      String.lt_irrefl _ (heq ▸ h.1 b hb)
    simp only [place]
    split
    · rename_i hlt
      have ha : a.1 ≠ key := fun heq => String.lt_irrefl _ (heq ▸ hlt)
      have hl : ∀ b ∈ l, b.1 ≠ key := fun b hb heq =>
        String.lt_irrefl _ (String.lt_trans hlt (heq ▸ h.1 b hb))
      simp only [List.mem_cons]
      constructor
      · rintro (he | rfl | he)
        · exact Or.inl he
        · exact Or.inr ⟨ha, Or.inl rfl⟩
        · exact Or.inr ⟨hl e he, Or.inr he⟩
      · rintro (he | ⟨-, he⟩)
        · exact Or.inl he
        · exact Or.inr he
    · split
      · rename_i hlt
        have ha : a.1 ≠ key := fun heq => String.lt_irrefl _ (heq ▸ hlt)
        simp only [List.mem_cons, ih h.2]
        constructor
        · rintro (rfl | he | ⟨he, hm⟩)
          · exact Or.inr ⟨ha, Or.inl rfl⟩
          · exact Or.inl he
          · exact Or.inr ⟨he, Or.inr hm⟩
        · rintro (he | ⟨he, rfl | hm⟩)
          · exact Or.inr (Or.inl he)
          · exact Or.inl rfl
          · exact Or.inr (Or.inr ⟨he, hm⟩)
      · rename_i h₁ h₂
        have heq : key = a.1 := String.le_antisymm (String.not_lt.1 h₂) (String.not_lt.1 h₁)
        simp only [List.mem_cons]
        constructor
        · rintro (he | he)
          · exact Or.inl he
          · exact Or.inr ⟨heq ▸ hne e he, Or.inr he⟩
        · rintro (he | ⟨hna, rfl | hm⟩)
          · exact Or.inl he
          · exact absurd heq.symm hna
          · exact Or.inr hm

/-- Import a repository under an alias; a former import under that alias gives way. -/
def insert (key repo : String) (m : AliasMap) : AliasMap :=
  ⟨place key repo m.toList, place_sorted m.sorted⟩

@[simp] theorem mem_insert {key repo : String} {m : AliasMap} {e : String × String} :
    e ∈ (m.insert key repo).toList ↔ e = (key, repo) ∨ (e.1 ≠ key ∧ e ∈ m.toList) :=
  mem_place m.sorted

/-- The entries that satisfy a test. -/
def filter (p : String × String → Bool) (m : AliasMap) : AliasMap :=
  ⟨m.toList.filter p, m.sorted.filter p⟩

/-- Drop the entry under an alias, if there is one. -/
def erase (key : String) (m : AliasMap) : AliasMap := m.filter fun e => e.1 != key

@[simp] theorem mem_erase {key : String} {m : AliasMap} {e : String × String} :
    e ∈ (m.erase key).toList ↔ e ∈ m.toList ∧ e.1 ≠ key := by
  simp [erase, filter]

/-- Drop every entry that imports one of the given repositories. -/
def withoutRepos (repos : RepoSet) (m : AliasMap) : AliasMap :=
  m.filter fun e => decide (e.2 ∉ repos)

@[simp] theorem mem_withoutRepos {repos : RepoSet} {m : AliasMap} {e : String × String} :
    e ∈ (m.withoutRepos repos).toList ↔ e ∈ m.toList ∧ e.2 ∉ repos := by
  simp [withoutRepos, filter]

/-- Import each of the given repositories under its own name. -/
def withRepos (repos : RepoSet) (m : AliasMap) : AliasMap :=
  repos.toList.foldl (fun m repo => m.insert repo repo) m

/-- Names that are imported under themselves replace the entries under these aliases. -/
theorem mem_foldl_insert {names : List String} {m : AliasMap} {e : String × String} :
    e ∈ (names.foldl (fun m repo => m.insert repo repo) m).toList ↔
      (e.1 = e.2 ∧ e.1 ∈ names) ∨ (e.1 ∉ names ∧ e ∈ m.toList) := by
  induction names generalizing m with
  | nil => simp
  | cons n names ih =>
    rw [List.foldl_cons, ih]
    obtain ⟨key, repo⟩ := e
    simp only [mem_insert, Prod.mk.injEq, List.mem_cons, not_or]
    constructor
    · rintro (⟨rfl, h⟩ | ⟨h, ⟨rfl, rfl⟩ | ⟨hne, hm⟩⟩)
      · exact Or.inl ⟨rfl, Or.inr h⟩
      · exact Or.inl ⟨rfl, Or.inl rfl⟩
      · exact Or.inr ⟨⟨hne, h⟩, hm⟩
    · rintro (⟨rfl, rfl | h⟩ | ⟨⟨hne, h⟩, hm⟩)
      · by_cases hn : key ∈ names
        · exact Or.inl ⟨rfl, hn⟩
        · exact Or.inr ⟨hn, Or.inl ⟨rfl, rfl⟩⟩
      · exact Or.inl ⟨rfl, h⟩
      · exact Or.inr ⟨h, Or.inr ⟨hne, hm⟩⟩

@[simp] theorem mem_withRepos {repos : RepoSet} {m : AliasMap} {e : String × String} :
    e ∈ (m.withRepos repos).toList ↔
      (e.1 = e.2 ∧ e.1 ∈ repos) ∨ (e.1 ∉ repos ∧ e ∈ m.toList) :=
  mem_foldl_insert

/-- The map of a list of entries; of two entries with one alias the later one counts. -/
def ofList (l : List (String × String)) : AliasMap :=
  l.foldl (fun m e => m.insert e.1 e.2) ∅

/-- Entries with aliases of their own are all in the map they make, and what was there before stays
under the other aliases. -/
theorem mem_foldl_insert_entries {l : List (String × String)} (h : l.Pairwise fun a b => a.1 ≠ b.1)
    {m : AliasMap} {e : String × String} :
    e ∈ (l.foldl (fun m e => m.insert e.1 e.2) m).toList ↔
      e ∈ l ∨ (e ∈ m.toList ∧ ∀ a ∈ l, a.1 ≠ e.1) := by
  induction l generalizing m with
  | nil => simp
  | cons a l ih =>
    rw [List.pairwise_cons] at h
    simp only [List.foldl_cons, ih h.2, mem_insert, List.mem_cons, forall_eq_or_imp]
    constructor
    · rintro (he | ⟨rfl | ⟨hne, hm⟩, hl⟩)
      · exact Or.inl (Or.inr he)
      · exact Or.inl (Or.inl rfl)
      · exact Or.inr ⟨hm, Ne.symm hne, hl⟩
    · rintro ((rfl | he) | ⟨hm, hne, hl⟩)
      · exact Or.inr ⟨Or.inl rfl, fun b hb => (h.1 b hb).symm⟩
      · exact Or.inl he
      · exact Or.inr ⟨Or.inr ⟨Ne.symm hne, hm⟩, hl⟩

@[simp] theorem ofList_toList (m : AliasMap) : ofList m.toList = m := by
  have hdistinct : m.toList.Pairwise fun a b => a.1 ≠ b.1 := by
    apply m.sorted.imp
    intro a b hlt heq
    exact String.lt_irrefl _ (heq ▸ hlt)
  ext e
  simp [ofList, mem_foldl_insert_entries hdistinct]

/-- The imported repositories in the order of their aliases, with repetitions. -/
def repos (m : AliasMap) : List String := m.toList.map (·.2)

end AliasMap

end ImportRepair
