import ImportRepair.RepoSet
import Mathlib.Data.String.Basic

/-!
# The order of names

Names are ordered by their code points, and the members of a `RepoSet` stand in this order. It is the
order of their bytes in UTF-8 (`lt_iff_utf8_lt`): no character's encoding begins with that of another
one, and the greater of two characters has the greater byte where the encodings first differ.
-/

namespace ImportRepair

/-- The bytes of a text in UTF-8. -/
def utf8 (s : String) : List UInt8 := s.toUTF8.data.toList

theorem utf8_eq_flatMap (s : String) : utf8 s = s.toList.flatMap String.utf8EncodeChar := by
  rw [utf8, String.toUTF8_eq_toByteArray, ← String.utf8Encode_toList]
  exact List.toList_data_toByteArray

/-- Bytes are compared by their values, and what follows counts only where they are equal. -/
theorem ofNat_cons_lt {a b : Nat} {l m : List UInt8} (hle : a ≤ b) (hb : b < 256)
    (h : a = b → l < m) : UInt8.ofNat a :: l < UInt8.ofNat b :: m := by
  rw [List.cons_lt_cons_iff, UInt8.lt_iff_toNat_lt, UInt8.toNat_ofNat', UInt8.toNat_ofNat']
  rcases Nat.lt_or_eq_of_le hle with hlt | rfl
  · left
    omega
  · exact Or.inr ⟨rfl, h rfl⟩

/-- The encoding of a smaller character is smaller, whatever follows the two. -/
theorem utf8EncodeChar_append_lt {c d : Char} (h : c < d) (l m : List UInt8) :
    String.utf8EncodeChar c ++ l < String.utf8EncodeChar d ++ m := by
  have hlt : c.val.toNat < d.val.toNat := h
  have hd : d.val.toNat < 0x110000 := by
    rcases d.valid with hlow | ⟨-, hhigh⟩
    · exact Nat.lt_trans hlow (by decide)
    · exact hhigh
  simp only [String.utf8EncodeChar]
  -- One case for each pair of lengths. The leading bytes tell different lengths apart; where the
  -- lengths are equal, the bytes are compared one by one.
  repeat' split
  all_goals
    simp only [List.cons_append, List.nil_append]
    repeat first
      | omega
      | refine ofNat_cons_lt (by omega) (by omega) fun _ => ?_

theorem flatMap_utf8EncodeChar_lt {l m : List Char} (h : l < m) :
    l.flatMap String.utf8EncodeChar < m.flatMap String.utf8EncodeChar := by
  induction l generalizing m with
  | nil =>
      cases m with
      | nil => exact absurd h (List.lt_irrefl _)
      | cons d m =>
          cases hd : (d :: m).flatMap String.utf8EncodeChar with
          | nil =>
              have hlength := congrArg List.length hd
              simp only [List.flatMap_cons, List.length_append, List.length_nil,
                String.length_utf8EncodeChar] at hlength
              have := d.utf8Size_pos
              omega
          | cons b bs => exact List.nil_lt_cons b bs
  | cons c l ih =>
      cases m with
      | nil => exact absurd h (List.not_lt_nil _)
      | cons d m =>
          simp only [List.flatMap_cons]
          rcases List.cons_lt_cons_iff.mp h with hcd | ⟨rfl, hlm⟩
          · exact utf8EncodeChar_append_lt hcd _ _
          · exact List.append_left_lt (ih hlm)

/-- Names stand in the order of their bytes. -/
theorem lt_iff_utf8_lt {s t : String} : s < t ↔ utf8 s < utf8 t := by
  have hmono : ∀ {s t : String}, s < t → utf8 s < utf8 t := by
    intro s t h
    rw [utf8_eq_flatMap, utf8_eq_flatMap]
    exact flatMap_utf8EncodeChar_lt (String.lt_iff_toList_lt.mp h)
  refine ⟨hmono, fun h => ?_⟩
  rcases lt_trichotomy s t with hst | rfl | hts
  · exact hst
  · exact absurd h (List.lt_irrefl _)
  · exact absurd h (List.lt_asymm (hmono hts))

/-- The members of a set are listed in the order of their bytes, each once. -/
theorem RepoSet.utf8_sorted (s : RepoSet) : s.toList.Pairwise fun m n => utf8 m < utf8 n :=
  s.sorted.imp lt_iff_utf8_lt.mp

end ImportRepair
