import ImportRepair.Proofs.ByteOrder
import ImportRepair.Proofs.CommandNormalForm
import Mathlib.Data.List.Destutter
import Mathlib.Data.List.Sort

/-!
# The repositories of a command

A command made from a list of names holds the one list that names the same repositories in strictly
increasing order of their bytes (`RepoSet.toList_ofList_eq_iff`). It is what is left of the sorted
names once each name is dropped that stands behind an equal one
(`RepoSet.toList_ofList_eq_destutter`). So commands do not depend on order and repetition
(`Command.ofList_canonical`).
-/

namespace ImportRepair

/-- Names are ordered by their bytes, also where they may be equal. -/
theorem le_iff_utf8_le {s t : String} : s ≤ t ↔ utf8 s ≤ utf8 t := by
  rw [← not_lt, lt_iff_utf8_lt, List.not_lt]

namespace RepoSet

/-- The list of a set is the only increasing one with its members. -/
theorem toList_ofList_eq_iff {ns l : List String} :
    (ofList ns).toList = l ↔ l.Pairwise (fun m n => utf8 m < utf8 n) ∧ ∀ n, n ∈ l ↔ n ∈ ns := by
  constructor
  · rintro rfl
    exact ⟨(ofList ns).utf8_sorted, fun n => mem_ofList⟩
  · rintro ⟨hsorted, hmem⟩
    refine eq_of_increasing (fun _ _ => List.lt_asymm) (ofList ns).utf8_sorted hsorted ?_
    intro n
    rw [hmem n]
    exact mem_ofList

/-- Equal names are adjacent once the names are sorted, so dropping repetitions of the name before
leaves each name once. -/
theorem toList_ofList_eq_destutter (ns : List String) :
    (ofList ns).toList =
      (ns.mergeSort fun m n => decide (utf8 m ≤ utf8 n)).destutter (· ≠ ·) := by
  have hsorted : (ns.mergeSort fun m n => decide (utf8 m ≤ utf8 n)).Pairwise (· ≤ ·) := by
    simp only [← le_iff_utf8_le]
    exact List.pairwise_mergeSort' (· ≤ ·) ns
  rw [hsorted.destutter_eq_dedup, toList_ofList_eq_iff]
  constructor
  · have hnodup := List.nodup_dedup (ns.mergeSort fun m n => decide (utf8 m ≤ utf8 n))
    have hle := hsorted.sublist (List.dedup_sublist _)
    refine (hle.and hnodup).imp ?_
    rintro m n ⟨hmn, hne⟩
    exact lt_iff_utf8_lt.mp (lt_of_le_of_ne hmn hne)
  · intro n
    rw [List.mem_dedup, List.mem_mergeSort]

end RepoSet

/-- The command made from a list of names holds these names in strictly increasing order of their
bytes, and no other list of the same names is so ordered; it comes from sorting the names and
dropping adjacent repetitions. So lists of the same names make the same command, with the same text,
and a command is made again from its own names. -/
theorem Command.ofList_canonical (action : Action) (label : String) :
    (∀ ns l, (ofList action label ns).repos.toList = l ↔
        l.Pairwise (fun m n => utf8 m < utf8 n) ∧ ∀ n, n ∈ l ↔ n ∈ ns) ∧
      (∀ ns, (ofList action label ns).repos.toList =
        (ns.mergeSort fun m n => decide (utf8 m ≤ utf8 n)).destutter (· ≠ ·)) ∧
      (∀ ns₁ ns₂, (∀ n, n ∈ ns₁ ↔ n ∈ ns₂) →
        ofList action label ns₁ = ofList action label ns₂ ∧
          (ofList action label ns₁).text = (ofList action label ns₂).text) ∧
      ∀ ns, ofList action label (ofList action label ns).repos.toList = ofList action label ns := by
  refine ⟨fun ns l => RepoSet.toList_ofList_eq_iff, RepoSet.toList_ofList_eq_destutter, ?_, ?_⟩
  · intro ns₁ ns₂ h
    have hsame : ofList action label ns₁ = ofList action label ns₂ := ofList_inj.mpr ⟨rfl, rfl, h⟩
    exact ⟨hsame, congrArg text hsame⟩
  · intro ns
    rw [ofList_inj]
    exact ⟨rfl, rfl, fun n => RepoSet.mem_ofList⟩

/-- An empty name, a repeated one, and characters that take three bytes and four. -/
theorem Command.ofList_canonical_of_shuffled :
    (∀ n, n ∈ ["😀", "b", "", "\uffff", "b"] ↔ n ∈ ["", "\uffff", "b", "😀"]) ∧
      (ofList .add "ext" ["😀", "b", "", "\uffff", "b"]).repos.toList = ["", "b", "\uffff", "😀"] ∧
      (ofList .add "ext" ["😀", "b", "", "\uffff", "b"]).text =
        (ofList .add "ext" ["", "\uffff", "b", "😀"]).text := by
  have hsame : ∀ n, n ∈ ["😀", "b", "", "\uffff", "b"] ↔ n ∈ ["", "\uffff", "b", "😀"] := by
    intro n
    simp only [List.mem_cons, List.not_mem_nil, or_false]
    grind
  obtain ⟨hlist, -, htext, -⟩ := ofList_canonical .add "ext"
  refine ⟨hsame, (hlist _ _).mpr ⟨by decide +kernel, ?_⟩, (htext _ _ hsame).2⟩
  intro n
  simp only [List.mem_cons, List.not_mem_nil, or_false]
  grind

end ImportRepair
