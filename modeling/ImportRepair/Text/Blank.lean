/-!
# Blank characters and words

A blank is a character with the Unicode property White_Space. The words of a text are its maximal
runs of other characters, in order.

## Implementation notes

`words` adds one character at a time to the front: a character opens a word of its own when a blank
or the end follows it, and otherwise joins the word that the rest begins with.
-/

namespace ImportRepair

/-- Holds for the characters with the Unicode property White_Space. -/
def isBlank (c : Char) : Bool :=
  let n := c.toNat
  (9 ≤ n && n ≤ 13) || n == 0x20 || n == 0x85 || n == 0xA0 || n == 0x1680 ||
    (0x2000 ≤ n && n ≤ 0x200A) || n == 0x2028 || n == 0x2029 || n == 0x202F || n == 0x205F ||
    n == 0x3000

/-- The first character of a text that continues a word, if the text goes on with the word. -/
def continuesWord : List Char → Bool
  | [] => false
  | c :: _ => !isBlank c

/-- Put a character in front of the first word. -/
def joinWord (c : Char) : List (List Char) → List (List Char)
  | [] => [[c]]
  | w :: ws => (c :: w) :: ws

/-- The maximal runs of characters that are not blank. -/
def words : List Char → List (List Char)
  | [] => []
  | c :: cs =>
    if isBlank c then words cs
    else if continuesWord cs then joinWord c (words cs)
    else [c] :: words cs

@[simp] theorem words_nil : words [] = [] := rfl

theorem words_cons_blank {c : Char} (h : isBlank c = true) (cs : List Char) :
    words (c :: cs) = words cs := by
  simp [words, h]

/-- A word followed by a blank or by the end of the text is the first word. -/
theorem words_append_of_not_continues {w cs : List Char} (hw : ∀ c ∈ w, isBlank c = false)
    (hne : w ≠ []) (hcs : continuesWord cs = false) : words (w ++ cs) = w :: words cs := by
  induction w with
  | nil => exact absurd rfl hne
  | cons c w ih =>
    have hc : isBlank c = false := hw c (by simp)
    cases w with
    | nil => simp [words, hc, hcs]
    | cons d w =>
      have hd : isBlank d = false := hw d (by simp)
      have hrest := ih (fun x hx => hw x (List.mem_cons_of_mem _ hx)) (by simp)
      have hstep : words (c :: d :: w ++ cs) = joinWord c (words (d :: w ++ cs)) := by
        simp only [List.cons_append]
        rw [words]
        simp [hc, continuesWord, hd]
      rw [hstep, hrest, joinWord]

/-- Words have characters, and none of them is a blank. -/
theorem of_mem_words {w cs : List Char} (h : w ∈ words cs) :
    w ≠ [] ∧ ∀ c ∈ w, isBlank c = false := by
  induction cs generalizing w with
  | nil => cases h
  | cons c cs ih =>
    rw [words] at h
    split at h
    · exact ih h
    · rename_i hc
      have hc : isBlank c = false := by simpa using hc
      split at h
      · cases hws : words cs with
        | nil =>
          rw [hws, joinWord, List.mem_singleton] at h
          subst h
          simp [hc]
        | cons v vs =>
          rw [hws, joinWord, List.mem_cons] at h
          rcases h with rfl | h
          · have hv := ih (show v ∈ words cs by simp [hws])
            refine ⟨by simp, fun d hd => ?_⟩
            rcases List.mem_cons.1 hd with rfl | hd
            · exact hc
            · exact hv.2 d hd
          · exact ih (by simp [hws, h])
      · rcases List.mem_cons.1 h with rfl | h
        · simp [hc]
        · exact ih h

end ImportRepair
