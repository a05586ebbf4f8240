import Mathlib.Data.List.TakeWhile
import ImportRepair.CommandLine.Arguments

/-!
# Forms of arguments

The form of an argument is the one that it is written in, and only short arguments of one form can
differ (`Form.Writes.eq_iff`).

## Implementation notes

`Form.Writes` is said by the texts of arguments alone, apart from the way in which their characters
are looked at.
-/

namespace ImportRepair.CommandLine

/-- The arguments that are words: all that do not begin with a dash, and the dash alone. -/
def IsPlain (argument : String) : Prop := argument = "-" ∨ argument.toList.head? ≠ some '-'

namespace Form

/-- How an argument of a form is written. -/
inductive Writes : Form → String → Prop
  | separator : Writes .separator "--"
  | long {name : String} (hne : name ≠ "") (heq : '=' ∉ name.toList) :
      Writes (.long name none) ("--" ++ name)
  | joined {name value : String} (heq : '=' ∉ name.toList) :
      Writes (.long name (some value)) ("--" ++ (name ++ "=" ++ value))
  | short {c : Char} {cs : List Char} (hc : c ≠ '-') :
      Writes (.short c) (String.ofList ('-' :: c :: cs))
  | word {text : String} (h : IsPlain text) : Writes (.word text) text

/-- After two dashes there is a name up to an equals sign, and a value after the sign. -/
theorem ofArgument_dashes {text : String} (hne : text ≠ "") :
    ofArgument ("--" ++ text) =
      .long (String.ofList (text.toList.takeWhile (· != '=')))
        (match text.toList.dropWhile (· != '=') with
          | [] => none
          | _ :: value => some (String.ofList value)) := by
  obtain ⟨c, cs, htext⟩ : ∃ c cs, text.toList = c :: cs := by
    apply List.exists_cons_of_ne_nil
    simpa using hne
  have hdrop : (c :: cs).drop ((c :: cs).takeWhile (· != '=')).length =
      (c :: cs).dropWhile (· != '=') := by
    have hdrop : ((c :: cs).takeWhile (· != '=') ++ (c :: cs).dropWhile (· != '=')).drop
        ((c :: cs).takeWhile (· != '=')).length = (c :: cs).dropWhile (· != '=') := List.drop_left
    rwa [List.takeWhile_append_dropWhile] at hdrop
  have hlist : ("--" ++ text).toList = '-' :: '-' :: c :: cs := by
    rw [String.toList_append, htext]
    rfl
  rw [ofArgument, hlist, htext]
  cases hrest : (c :: cs).dropWhile (· != '=') <;> simp only [hdrop, hrest]

theorem writes_dashes {text : String} (hne : text ≠ "") :
    (ofArgument ("--" ++ text)).Writes ("--" ++ text) := by
  have hparts : text.toList.takeWhile (· != '=') ++ text.toList.dropWhile (· != '=') =
      text.toList := List.takeWhile_append_dropWhile
  have hname : '=' ∉ (String.ofList (text.toList.takeWhile (· != '='))).toList := by
    rw [String.toList_ofList]
    intro hmem
    simpa using List.mem_takeWhile_imp hmem
  rw [ofArgument_dashes hne]
  cases hrest : text.toList.dropWhile (· != '=') with
  | nil =>
      have htext : String.ofList (text.toList.takeWhile (· != '=')) = text := by
        rw [hrest, List.append_nil] at hparts
        rw [hparts, String.ofList_toList]
      rw [htext] at hname ⊢
      exact .long hne hname
  | cons c value =>
      have hc : c = '=' := by
        have hnot := List.head_dropWhile_not (· != '=') (l := text.toList) (by simp [hrest])
        simpa [hrest] using hnot
      have htext : text = String.ofList (text.toList.takeWhile (· != '=')) ++ "=" ++
          String.ofList value := by
        rw [hrest, hc] at hparts
        rw [← String.toList_inj]
        simpa using hparts.symm
      have hjoined : (Form.long _ (some (String.ofList value))).Writes _ := .joined hname
      rwa [← htext] at hjoined

theorem writes_ofArgument (argument : String) : (ofArgument argument).Writes argument := by
  have hlist : argument = String.ofList argument.toList := String.ofList_toList.symm
  by_cases hdashes : ∃ text, text ≠ "" ∧ argument = "--" ++ text
  · obtain ⟨text, hne, rfl⟩ := hdashes
    exact writes_dashes hne
  · rw [ofArgument]
    split
    · rename_i h
      rw [hlist, h]
      exact .separator
    · rename_i cs hcs h
      refine absurd ⟨String.ofList cs, by simpa using hcs, ?_⟩ hdashes
      rw [← String.toList_inj, h]
      simp
    · rename_i c cs hsep hc h
      rw [hlist, h]
      exact .short hc
    · rename_i hsep hlong hshort
      refine .word ?_
      match hcs : argument.toList with
      | [] => exact Or.inr (by simp [hcs])
      | [c] =>
        by_cases hc : c = '-'
        · exact Or.inl (by rw [hlist, hcs, hc])
        · exact Or.inr (by simpa [hcs] using hc)
      | c :: d :: cs =>
        refine Or.inr ?_
        rintro hhead
        rw [hcs, List.head?_cons, Option.some.injEq] at hhead
        subst hhead
        exact hshort d cs hcs

theorem Writes.ofArgument_eq {f : Form} {argument : String} (h : f.Writes argument) :
    ofArgument argument = f := by
  cases h with
  | separator => rfl
  | @long name hne heq =>
      have hall : ∀ c ∈ name.toList, (c != '=') = true := by grind
      rw [ofArgument_dashes hne, List.takeWhile_eq_self_iff.mpr hall,
        List.dropWhile_eq_nil_iff.mpr hall, String.ofList_toList]
  | @joined name value heq =>
      have hall : ∀ c ∈ name.toList, (c != '=') = true := by grind
      have htext : (name ++ "=" ++ value).toList = name.toList ++ '=' :: value.toList := by simp
      have hne : name ++ "=" ++ value ≠ "" := by
        intro h
        simp [h] at htext
      rw [ofArgument_dashes hne, htext, List.takeWhile_append_of_pos hall,
        List.dropWhile_append_of_pos hall]
      simp
  | short hc =>
      rw [ofArgument, String.toList_ofList]
      split <;> simp_all
  | word h =>
      rw [ofArgument]
      rcases h with rfl | h
      · rfl
      · split <;> simp_all

/-- Arguments of other forms than short ones are told apart by their forms. -/
theorem Writes.eq_iff {f f' : Form} {argument argument' : String} (h : f.Writes argument)
    (h' : f'.Writes argument') (hf : ∀ c, f ≠ .short c) : argument = argument' ↔ f = f' := by
  constructor
  · rintro rfl
    exact h.ofArgument_eq.symm.trans h'.ofArgument_eq
  · rintro rfl
    cases h with
    | separator | long | joined | word => cases h'; rfl
    | short => exact absurd rfl (hf _)

end Form

end ImportRepair.CommandLine
