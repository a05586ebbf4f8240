/-!
# Strictly increasing lists

A strictly increasing list is determined by its elements. Sets of names and alias maps are kept as
such lists, and this fact makes their representation unique.
-/

namespace ImportRepair

/-- Lists increasing in an asymmetric order are equal once they have the same elements. -/
theorem eq_of_increasing {α : Type} {lt : α → α → Prop} (asymm : ∀ a b, lt a b → ¬lt b a)
    {l₁ l₂ : List α} (h₁ : l₁.Pairwise lt) (h₂ : l₂.Pairwise lt)
    (h : ∀ a, a ∈ l₁ ↔ a ∈ l₂) : l₁ = l₂ := by
  have irrefl : ∀ a, ¬lt a a := fun a ha => asymm a a ha ha
  induction l₁ generalizing l₂ with
  | nil =>
    cases l₂ with
    | nil => rfl
    | cons b l₂ => exact absurd ((h b).2 (by simp)) (by simp)
  | cons a l₁ ih =>
    cases l₂ with
    | nil => exact absurd ((h a).1 (by simp)) (by simp)
    | cons b l₂ =>
      rw [List.pairwise_cons] at h₁ h₂
      have hab : a = b := by
        rcases List.mem_cons.1 ((h a).1 (by simp)) with hab | hab
        · exact hab
        · rcases List.mem_cons.1 ((h b).2 (by simp)) with hba | hba
          · exact hba.symm
          · exact absurd (h₁.1 b hba) (asymm _ _ (h₂.1 a hab))
      subst hab
      congr 1
      refine ih h₁.2 h₂.2 fun n => ?_
      have hn := h n
      simp only [List.mem_cons] at hn
      constructor
      · intro hm
        rcases hn.1 (Or.inr hm) with rfl | hm'
        · exact absurd (h₁.1 n hm) (irrefl n)
        · exact hm'
      · intro hm
        rcases hn.2 (Or.inr hm) with rfl | hm'
        · exact absurd (h₂.1 n hm) (irrefl n)
        · exact hm'

end ImportRepair
