import ImportRepair.Proofs.Classification
import ImportRepair.Proofs.Sections
import Mathlib.Data.List.Nodup

/-!
# What a warning tells

The warning for a user determines the report that it is made of (`message_eq_iff`): two reports are
shown as the same text only if they name the same repositories in every group. Each group has three
lines of its own, of which the blank one closes it, and in the list of names each name is opened by
a comma; so names must be free of commas and line feeds, and may be anything else.

## Implementation notes

A list of names is taken with a comma before its first name, too. Thus the empty name is told from
no name at all, and a name may begin with a space.
-/

namespace ImportRepair

/-- A name that shows where it ends in a list of names. -/
def PlainName (n : String) : Prop := ',' ∉ n.toList ∧ OneLine n

instance (n : String) : Decidable (PlainName n) := inferInstanceAs (Decidable (_ ∧ _))

namespace Mismatch

theorem nodup_headings : (all.map heading).Nodup := by
  decide +kernel

theorem heading_inj {m m' : Mismatch} : m.heading = m'.heading ↔ m = m' := by
  constructor
  · exact fun h => List.inj_on_of_nodup_map nodup_headings m.mem_all m'.mem_all h
  · exact congrArg heading

theorem oneLine_heading (m : Mismatch) : OneLine m.heading := by
  cases m <;> decide +kernel

end Mismatch

/-- Names with commas between them, and one before the first. -/
theorem toList_comma_intercalate (n : String) (ns : List String) :
    (", " ++ ", ".intercalate (n :: ns)).toList =
      (n :: ns).flatMap fun n => ',' :: ' ' :: n.toList := by
  induction ns generalizing n with
  | nil => simp
  | cons m ns ih =>
      rw [String.intercalate_cons_cons, List.flatMap_cons, ← ih m]
      simp

theorem oneLine_intercalate {ns : List String} (h : ∀ n ∈ ns, OneLine n) :
    OneLine (", ".intercalate ns) := by
  cases ns with
  | nil => decide
  | cons n ns =>
      have hlist : OneLine (", " ++ ", ".intercalate (n :: ns)) := by
        rw [OneLine, toList_comma_intercalate]
        simpa [List.mem_flatMap, OneLine] using h
      exact (oneLine_append.mp hlist).2

/-- A list of names is told from any other by its text. -/
theorem intercalate_inj {ms ns : List String} (hms : ∀ m ∈ ms, ',' ∉ m.toList)
    (hns : ∀ n ∈ ns, ',' ∉ n.toList) (hms' : ms ≠ []) (hns' : ns ≠ [])
    (h : ", ".intercalate ms = ", ".intercalate ns) : ms = ns := by
  obtain ⟨m, ms, rfl⟩ := List.exists_cons_of_ne_nil hms'
  obtain ⟨n, ns, rfl⟩ := List.exists_cons_of_ne_nil hns'
  have hchars := congrArg (fun t => (", " ++ t).toList) h
  simp only [toList_comma_intercalate] at hchars
  refine flatMap_opened_inj (P := fun n => ',' ∉ n.toList) ?_ ?_ hms hns hchars
  · intro n hn
    simpa using hn
  · intro m n _ _ hmn
    exact String.toList_inj.mp (List.cons.inj hmn).2

namespace Reconciliation

variable {r r₁ r₂ : Reconciliation}

/-- The lines for a group. -/
def paragraphLines (p : Mismatch × RepoSet) : List String :=
  [p.1.heading ++ ":", "    " ++ ", ".intercalate p.2.toList] ++ [""]

theorem unlines_paragraphLines (p : Mismatch × RepoSet) :
    unlines (paragraphLines p) = paragraph p := by
  have hindent : ":\n    " = ":" ++ "\n" ++ "    " := by decide
  have hclosed : "\n\n" = "\n" ++ "\n" := by decide
  rw [paragraph, hindent, hclosed]
  simp only [paragraphLines, List.cons_append, List.nil_append, unlines_cons, unlines_nil,
    String.append_assoc, String.empty_append, String.append_empty]

/-- Warnings about one extension differ in their paragraphs alone. -/
theorem unlines_eq_of_message_eq (hname : r₁.usage.extensionName = r₂.usage.extensionName)
    (hfile : r₁.usage.bzlFile = r₂.usage.bzlFile) (h : r₁.message = r₂.message) :
    unlines (r₁.mismatches.flatMap paragraphLines) =
      unlines (r₂.mismatches.flatMap paragraphLines) := by
  unfold message at h
  rw [hname, hfile] at h
  have hfront := (String.append_left_inj _).mp
    ((String.append_left_inj _).mp ((String.append_left_inj _).mp h))
  have hparagraphs := (String.append_right_inj _).mp hfront
  simpa only [unlines_flatMap, unlines_paragraphLines] using hparagraphs

/-- A group as a report lists it. -/
structure Listed (p : Mismatch × RepoSet) : Prop where
  nonempty : p.2.toList ≠ []
  plain : ∀ n ∈ p.2.toList, PlainName n

theorem listed_of_mem (h : ∀ n ∈ r.reported, PlainName n) :
    ∀ p ∈ r.mismatches, Listed p := by
  rintro ⟨m, s⟩ hp
  obtain ⟨rfl, hne⟩ := mem_mismatches.mp hp
  constructor
  · intro hnil
    obtain ⟨n, hn⟩ := RepoSet.exists_mem_of_ne_empty hne
    rw [RepoSet.mem_def, hnil] at hn
    cases hn
  · intro n hn
    exact h n (mem_reported.mpr ⟨m, hn⟩)

theorem Listed.oneLine {p : Mismatch × RepoSet} (h : Listed p) :
    ∀ l ∈ paragraphLines p, OneLine l := by
  have hnames : OneLine (", ".intercalate p.2.toList) :=
    oneLine_intercalate fun n hn => (h.plain n hn).2
  have hcolon : OneLine ":" := by decide
  have hindent : OneLine "    " := by decide
  have hblank : OneLine "" := by decide
  simp [paragraphLines, p.1.oneLine_heading, hnames, hcolon, hindent, hblank]

theorem paragraphs_inj {ps qs : List (Mismatch × RepoSet)} (hps : ∀ p ∈ ps, Listed p)
    (hqs : ∀ q ∈ qs, Listed q) (h : ps.flatMap paragraphLines = qs.flatMap paragraphLines) :
    ps = qs := by
  refine flatMap_closed_inj [] (P := Listed) ?_ ?_ hps hqs h
  · -- No line of a group but its last one is blank.
    intro p _
    simp [eq_comm (a := "")]
  · rintro ⟨m, s⟩ ⟨m', s'⟩ hp hq hlines
    simp only [List.cons.injEq, String.append_left_inj, String.append_right_inj, and_true]
      at hlines
    have hgroup : m = m' := Mismatch.heading_inj.mp hlines.1
    have hnames : s.toList = s'.toList :=
      intercalate_inj (fun n hn => (hp.plain n hn).1) (fun n hn => (hq.plain n hn).1)
        hp.nonempty hq.nonempty hlines.2
    rw [hgroup, ← RepoSet.ofList_toList s, hnames, RepoSet.ofList_toList]

/-- The warning about a usage determines the report, group by group and name by name, if no reported
name has a comma or a line feed in it. -/
theorem message_eq_iff (hname : r₁.usage.extensionName = r₂.usage.extensionName)
    (hfile : r₁.usage.bzlFile = r₂.usage.bzlFile) (h₁ : ∀ n ∈ r₁.reported, PlainName n)
    (h₂ : ∀ n ∈ r₂.reported, PlainName n) :
    (r₁.message = r₂.message ↔ r₁.mismatches = r₂.mismatches) ∧
      (r₁.mismatches = r₂.mismatches ↔ ∀ m, r₁.mismatch m = r₂.mismatch m) := by
  have hlisted₁ := listed_of_mem h₁
  have hlisted₂ := listed_of_mem h₂
  refine ⟨⟨?_, ?_⟩, mismatches_eq_iff⟩
  · intro h
    have hlines := unlines_inj (oneLine_flatMap fun p hp => (hlisted₁ p hp).oneLine)
      (oneLine_flatMap fun p hp => (hlisted₂ p hp).oneLine) (unlines_eq_of_message_eq hname hfile h)
    exact paragraphs_inj hlisted₁ hlisted₂ hlines
  · intro h
    unfold message
    rw [hname, hfile, h]

-- A name with a comma in it would be shown like two names.
example : paragraph (.missing, .ofList ["x, y"]) = paragraph (.missing, .ofList ["x", "y"]) := by
  decide +kernel

/-- `mixedUsage` with one more proxy, which imports the given names. -/
def mixedWith (names : List String) : Reconciliation where
  usage := { mixedUsage with
    proxies := mixedUsage.proxies ++ [{
      path := ⟨"MODULE.bazel"⟩, name := "odd", location := ⟨"MODULE.bazel", 30, 1⟩
      imports := .ofList (names.map fun n => (n, n)) }] }
  generated := mixedGenerated
  expected := mixedExpected

/-- An empty name and spaces at the ends of names do not blur where a name ends. -/
theorem message_eq_iff_of_oddNames :
    (∀ n ∈ (mixedWith ["", " a"]).reported, PlainName n) ∧
      (∀ n ∈ (mixedWith [" ", "a"]).reported, PlainName n) ∧
      (mixedWith ["", " a"]).mismatches ≠ (mixedWith [" ", "a"]).mismatches ∧
      (mixedWith ["", " a"]).message ≠ (mixedWith [" ", "a"]).message := by
  have h₁ : ∀ n ∈ (mixedWith ["", " a"]).reported, PlainName n := by decide +kernel
  have h₂ : ∀ n ∈ (mixedWith [" ", "a"]).reported, PlainName n := by decide +kernel
  have hne : (mixedWith ["", " a"]).mismatches ≠ (mixedWith [" ", "a"]).mismatches := by
    decide +kernel
  have hname : (mixedWith ["", " a"]).usage.extensionName =
      (mixedWith [" ", "a"]).usage.extensionName := rfl
  have hfile : (mixedWith ["", " a"]).usage.bzlFile = (mixedWith [" ", "a"]).usage.bzlFile := rfl
  exact ⟨h₁, h₂, hne, fun h => hne ((message_eq_iff hname hfile h₁ h₂).1.mp h)⟩

end Reconciliation

end ImportRepair
