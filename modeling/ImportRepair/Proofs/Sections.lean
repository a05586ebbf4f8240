import Mathlib.Data.List.Basic

/-!
# Sections and lines

A text shows where its parts begin if every part is opened or closed by a mark that does not stand
inside a part. Then the parts can be read off the whole (`flatMap_closed_inj`,
`flatMap_opened_inj`). The lines of a text are such parts, closed by line feeds (`unlines_inj`), and
the lines themselves make up the sections of a report.
-/

namespace ImportRepair

section

variable {α β : Type}

/-- What stands before the first mark and what stands behind it. -/
theorem append_cons_inj {x : β} {l₁ l₂ r₁ r₂ : List β} (h₁ : x ∉ l₁) (h₂ : x ∉ l₂)
    (h : l₁ ++ x :: r₁ = l₂ ++ x :: r₂) : l₁ = l₂ ∧ r₁ = r₂ := by
  induction l₁ generalizing l₂ with
  | nil =>
      cases l₂ with
      | nil => exact ⟨rfl, (List.cons.inj h).2⟩
      | cons b l₂ => exact absurd ((List.cons.inj h).1 ▸ List.mem_cons_self ..) h₂
  | cons a l₁ ih =>
      cases l₂ with
      | nil => exact absurd ((List.cons.inj h).1 ▸ List.mem_cons_self ..) h₁
      | cons b l₂ =>
          obtain ⟨rfl, htail⟩ := List.cons.inj h
          obtain ⟨rfl, hrest⟩ :=
            ih (List.not_mem_of_not_mem_cons h₁) (List.not_mem_of_not_mem_cons h₂) htail
          exact ⟨rfl, hrest⟩

variable {P : α → Prop} {g : α → List β} {x : β} {as bs : List α}

/-- Sections are told apart if each one is closed by a mark that it does not hold, with the same
items behind the mark. -/
theorem flatMap_closed_inj (t : List β) (hmark : ∀ a, P a → x ∉ g a)
    (hinj : ∀ a b, P a → P b → g a = g b → a = b) (has : ∀ a ∈ as, P a) (hbs : ∀ b ∈ bs, P b)
    (h : (as.flatMap fun a => g a ++ x :: t) = bs.flatMap fun b => g b ++ x :: t) : as = bs := by
  induction as generalizing bs with
  | nil =>
      cases bs with
      | nil => rfl
      | cons b bs => simp at h
  | cons a as ih =>
      cases bs with
      | nil => simp at h
      | cons b bs =>
          rw [List.forall_mem_cons] at has hbs
          simp only [List.flatMap_cons, List.append_assoc, List.cons_append] at h
          obtain ⟨hfirst, hrest⟩ := append_cons_inj (hmark a has.1) (hmark b hbs.1) h
          rw [hinj a b has.1 hbs.1 hfirst, ih has.2 hbs.2 (List.append_cancel_left hrest)]

/-- Sections are told apart if each one is opened by a mark that stands nowhere else in it. -/
theorem flatMap_opened_inj (hmark : ∀ a, P a → x ∉ g a)
    (hinj : ∀ a b, P a → P b → g a = g b → a = b) (has : ∀ a ∈ as, P a) (hbs : ∀ b ∈ bs, P b)
    (h : (as.flatMap fun a => x :: g a) = bs.flatMap fun b => x :: g b) : as = bs := by
  -- A mark put at the end closes the last section, and every other one is closed by the next mark.
  have hshift : ∀ l : List α,
      (l.flatMap fun a => x :: g a) ++ [x] = x :: l.flatMap fun a => g a ++ [x] := by
    intro l
    induction l with
    | nil => rfl
    | cons a l ih => rw [List.flatMap_cons, List.append_assoc, ih, List.flatMap_cons]; simp
  apply flatMap_closed_inj [] hmark hinj has hbs
  have hclosed := congrArg (· ++ [x]) h
  simpa only [hshift, List.cons.injEq, true_and] using hclosed

end

/-- A text without a line feed. -/
def OneLine (s : String) : Prop := '\n' ∉ s.toList

instance (s : String) : Decidable (OneLine s) := inferInstanceAs (Decidable (_ ∉ _))

@[simp] theorem oneLine_append {s t : String} : OneLine (s ++ t) ↔ OneLine s ∧ OneLine t := by
  simp [OneLine, not_or]

theorem oneLine_flatMap {α : Type} {f : α → List String} {as : List α}
    (h : ∀ a ∈ as, ∀ l ∈ f a, OneLine l) : ∀ l ∈ as.flatMap f, OneLine l := by
  intro l hl
  obtain ⟨a, ha, hla⟩ := List.mem_flatMap.mp hl
  exact h a ha l hla

/-- Lines, each closed by a line feed. -/
def unlines (ls : List String) : String := String.join (ls.map (· ++ "\n"))

@[simp] theorem unlines_nil : unlines [] = "" := rfl

theorem toList_unlines (ls : List String) :
    (unlines ls).toList = ls.flatMap fun l => l.toList ++ ['\n'] := by
  simp [unlines, String.toList_join, List.flatMap_map]

theorem unlines_append (ls ms : List String) : unlines (ls ++ ms) = unlines ls ++ unlines ms := by
  rw [← String.toList_inj]
  simp [toList_unlines]

@[simp] theorem unlines_cons (l : String) (ls : List String) :
    unlines (l :: ls) = l ++ "\n" ++ unlines ls := by
  rw [← String.toList_inj]
  simp [toList_unlines]

/-- The lines of sections, one section after the other. -/
theorem unlines_flatMap {α : Type} (as : List α) (f : α → List String) :
    unlines (as.flatMap f) = String.join (as.map fun a => unlines (f a)) := by
  induction as with
  | nil => rfl
  | cons a as ih => simp [unlines_append, ih]

theorem unlines_inj {ls ms : List String} (hls : ∀ l ∈ ls, OneLine l) (hms : ∀ m ∈ ms, OneLine m)
    (h : unlines ls = unlines ms) : ls = ms := by
  have hchars := congrArg String.toList h
  rw [toList_unlines, toList_unlines] at hchars
  exact flatMap_closed_inj [] (fun _ hl => hl) (fun _ _ _ _ => String.toList_inj.mp) hls hms hchars

/-- The first line of a text, and the text behind it. -/
theorem line_append_inj {l m s t : String} (hl : OneLine l) (hm : OneLine m)
    (h : l ++ "\n" ++ s = m ++ "\n" ++ t) : l = m ∧ s = t := by
  have hchars := congrArg String.toList h
  simp only [String.toList_append, List.append_assoc] at hchars
  obtain ⟨hline, hrest⟩ := append_cons_inj hl hm hchars
  exact ⟨String.toList_inj.mp hline, String.toList_inj.mp hrest⟩

end ImportRepair
