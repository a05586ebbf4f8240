import Mathlib.Logic.Relation
import ImportRepair.ModulePath

/-!
# Spellings of a path

Two spellings name the same file just when a chain of steps leads from one to the other, each of
which keeps the path: to double a slash, to put `.` between slashes, and to put a slash at the end
(`same_iff_eqvGen`).

## Implementation notes

The components of a path are spelled out with a slash before each but the first, where the leading
slash counts as a component. Steps lead from every spelling to this one, which depends on the
components alone.
-/

namespace ImportRepair

theorem slashParts_ne_nil (cs : List Char) : slashParts cs ≠ [] := by
  induction cs with
  | nil => exact List.cons_ne_nil _ _
  | cons c cs ih =>
      obtain ⟨p, ps, hps⟩ := List.exists_cons_of_ne_nil ih
      by_cases hc : c = '/'
      · simp [slashParts, hc]
      · simp [slashParts, hc, hps]

theorem slashParts_append_slash (a b : List Char) :
    slashParts (a ++ '/' :: b) = slashParts a ++ slashParts b := by
  induction a with
  | nil => simp [slashParts]
  | cons c a ih =>
      obtain ⟨p, ps, hps⟩ := List.exists_cons_of_ne_nil (slashParts_ne_nil a)
      by_cases hc : c = '/'
      · simp [slashParts, hc, ih]
      · simp [slashParts, hc, ih, hps]

/-- A text is made of its stretches, with a slash before each but the first. -/
theorem exists_slashParts_eq_cons (cs : List Char) :
    ∃ p ps, slashParts cs = p :: ps ∧ cs = p ++ ps.flatMap ('/' :: ·) ∧ '/' ∉ p := by
  induction cs with
  | nil => exact ⟨[], [], rfl, rfl, List.not_mem_nil⟩
  | cons c cs ih =>
      obtain ⟨p, ps, hps, htext, hp⟩ := ih
      by_cases hc : c = '/'
      · exact ⟨[], p :: ps, by simp [slashParts, hc, hps], by simp [hc, ← htext],
          List.not_mem_nil⟩
      · exact ⟨c :: p, ps, by simp [slashParts, hc, hps], by simp [← htext],
          by simp [hp, Ne.symm hc]⟩

namespace ModulePath

/-- A step from one spelling of a path to another. -/
inductive SpellingStep : ModulePath → ModulePath → Prop
  /-- Two slashes in a row are as good as one. -/
  | doubled (a b : String) : SpellingStep ⟨a ++ "//" ++ b⟩ ⟨a ++ "/" ++ b⟩
  /-- `.` between slashes does not count. -/
  | dot (a b : String) : SpellingStep ⟨a ++ "/./" ++ b⟩ ⟨a ++ "/" ++ b⟩
  /-- A slash at the end does not count unless it is the whole path. -/
  | lastSlash (a : String) (h : a ≠ "") : SpellingStep ⟨a ++ "/"⟩ ⟨a⟩

variable {p q : ModulePath}

/-- After the first stretch of a path its names alone count. -/
theorem same_of_names (a : List Char) (ps qs : List (List Char))
    (hp : slashParts p.text.toList = slashParts a ++ ps)
    (hq : slashParts q.text.toList = slashParts a ++ qs)
    (hhead : p.text.toList.head? = q.text.toList.head?)
    (hnames : ps.filter isName = qs.filter isName) : p.Same q := by
  obtain ⟨r, rs, hrs, -⟩ := exists_slashParts_eq_cons a
  have hfirst : (slashParts p.text.toList).head? = (slashParts q.text.toList).head? := by
    rw [hp, hq, hrs]
    rfl
  have hall : (slashParts p.text.toList).filter isName =
      (slashParts q.text.toList).filter isName := by
    rw [hp, hq, List.filter_append, List.filter_append, hnames]
  simp only [Same, components, hhead, hfirst, hall]

theorem SpellingStep.same (h : SpellingStep p q) : p.Same q := by
  cases h with
  | doubled a b =>
      apply same_of_names a.toList ([] :: slashParts b.toList) (slashParts b.toList)
      · simp [slashParts_append_slash, slashParts]
      · simp [slashParts_append_slash]
      · cases a.toList <;> simp
      · rfl
  | dot a b =>
      apply same_of_names a.toList (['.'] :: slashParts b.toList) (slashParts b.toList)
      · simp [slashParts_append_slash, slashParts]
      · simp [slashParts_append_slash]
      · cases a.toList <;> simp
      · rfl
  | lastSlash a ha =>
      apply same_of_names a.toList [[]] []
      · simp [slashParts_append_slash, slashParts]
      · simp
      · obtain ⟨c, cs, hcs⟩ := List.exists_cons_of_ne_nil (mt String.toList_eq_nil_iff.mp ha)
        simp [hcs]
      · rfl

open Relation (EqvGen)

theorem eqvGen_doubled (a b : List Char) :
    EqvGen SpellingStep ⟨.ofList (a ++ '/' :: '/' :: b)⟩ ⟨.ofList (a ++ '/' :: b)⟩ := by
  have hp : String.ofList (a ++ '/' :: '/' :: b) = .ofList a ++ "//" ++ .ofList b :=
    String.toList_injective (by simp)
  have hq : String.ofList (a ++ '/' :: b) = .ofList a ++ "/" ++ .ofList b :=
    String.toList_injective (by simp)
  rw [hp, hq]
  exact .rel _ _ (.doubled _ _)

theorem eqvGen_dot (a b : List Char) :
    EqvGen SpellingStep ⟨.ofList (a ++ '/' :: '.' :: '/' :: b)⟩ ⟨.ofList (a ++ '/' :: b)⟩ := by
  have hp : String.ofList (a ++ '/' :: '.' :: '/' :: b) = .ofList a ++ "/./" ++ .ofList b :=
    String.toList_injective (by simp)
  have hq : String.ofList (a ++ '/' :: b) = .ofList a ++ "/" ++ .ofList b :=
    String.toList_injective (by simp)
  rw [hp, hq]
  exact .rel _ _ (.dot _ _)

theorem eqvGen_lastSlash {a : List Char} (ha : a ≠ []) :
    EqvGen SpellingStep ⟨.ofList (a ++ ['/'])⟩ ⟨.ofList a⟩ := by
  have hp : String.ofList (a ++ ['/']) = .ofList a ++ "/" := String.toList_injective (by simp)
  rw [hp]
  exact .rel _ _ (.lastSlash _ (by simpa using ha))

/-- `.` at the end does not count either: it stands between slashes once a slash is put after it. -/
theorem eqvGen_lastDot {a : List Char} (ha : a ≠ []) :
    EqvGen SpellingStep ⟨.ofList (a ++ ['/', '.'])⟩ ⟨.ofList a⟩ := by
  have hslash : EqvGen SpellingStep ⟨.ofList (a ++ ['/', '.', '/'])⟩
      ⟨.ofList (a ++ ['/', '.'])⟩ := by
    simpa using eqvGen_lastSlash (a := a ++ ['/', '.']) (by simp)
  have hdot := eqvGen_dot a []
  exact (hslash.symm.trans _ _ _ hdot).trans _ _ _ (eqvGen_lastSlash ha)

theorem isName_eq_false_iff {x : List Char} : isName x = false ↔ x = [] ∨ x = ['.'] := by
  rw [isName, Bool.and_eq_false_iff, bne_eq_false_iff_eq, bne_eq_false_iff_eq]

/-- A stretch that is no name can be left out after a text. -/
theorem eqvGen_idle {a x : List Char} (ha : a ≠ []) (hx : isName x = false)
    (ps : List (List Char)) :
    EqvGen SpellingStep ⟨.ofList (a ++ '/' :: x ++ ps.flatMap ('/' :: ·))⟩
      ⟨.ofList (a ++ ps.flatMap ('/' :: ·))⟩ := by
  rcases isName_eq_false_iff.mp hx with rfl | rfl
  · cases ps with
    | nil => simpa using eqvGen_lastSlash ha
    | cons q qs => simpa using eqvGen_doubled a (q ++ qs.flatMap ('/' :: ·))
  · cases ps with
    | nil => simpa using eqvGen_lastDot ha
    | cons q qs => simpa using eqvGen_dot a (q ++ qs.flatMap ('/' :: ·))

/-- After a text the names alone count. -/
theorem eqvGen_names {a : List Char} (ha : a ≠ []) (ps : List (List Char)) :
    EqvGen SpellingStep ⟨.ofList (a ++ ps.flatMap ('/' :: ·))⟩
      ⟨.ofList (a ++ (ps.filter isName).flatMap ('/' :: ·))⟩ := by
  induction ps generalizing a with
  | nil => exact .refl _
  | cons p ps ih =>
      by_cases hp : isName p = true
      · rw [List.filter_cons_of_pos hp]
        simpa using ih (a := a ++ '/' :: p) (by simp)
      · have hidle := eqvGen_idle ha (Bool.eq_false_iff.mpr hp) ps
        rw [List.filter_cons_of_neg hp]
        simpa using hidle.trans _ _ _ (ih ha)

end ModulePath

/-- The characters of a component. -/
def PathComponent.chars : PathComponent → List Char
  | .root => ['/']
  | .here => ['.']
  | .name chars => chars

namespace ModulePath

open Relation (EqvGen)

/-- The spelling of components that has a slash before each but the first. -/
def ofComponents : List PathComponent → ModulePath
  | [] => ⟨""⟩
  | c :: cs => ⟨.ofList (c.chars ++ cs.flatMap fun c => '/' :: c.chars)⟩

theorem flatMap_chars_names (ps : List (List Char)) :
    (ps.map PathComponent.name).flatMap (fun c => '/' :: c.chars) = ps.flatMap ('/' :: ·) := by
  rw [List.flatMap_map]
  rfl

/-- Steps lead from every spelling of a path to the spelling of its components. -/
theorem eqvGen_ofComponents (p : ModulePath) :
    EqvGen SpellingStep p (ofComponents p.components) := by
  obtain ⟨a, ps, hparts, htext, ha⟩ := exists_slashParts_eq_cons p.text.toList
  have hp : p = ⟨.ofList (a ++ ps.flatMap ('/' :: ·))⟩ := by
    rw [← htext, String.ofList_toList]
  cases a with
  | nil =>
      cases ps with
      | nil =>
          have hhead : p.text.toList.head? = none := by rw [htext]; rfl
          have hcomponents : p.components = [] := by
            simp [components, hparts, hhead, isName]
          rw [hcomponents, hp]
          exact .refl _
      | cons q qs =>
          have hhead : p.text.toList.head? = some '/' := by rw [htext]; rfl
          have hcomponents : p.components = .root :: ((q :: qs).filter isName).map .name := by
            rw [components, hparts, hhead]
            rfl
          -- Behind a second slash the stretches stand after a text, which is the leading slash.
          have hdoubled := (eqvGen_doubled [] (q ++ qs.flatMap ('/' :: ·))).symm
          have hnames := eqvGen_names (a := ['/']) (by simp) (q :: qs)
          rw [hcomponents, ofComponents, flatMap_chars_names, hp]
          exact hdoubled.trans _ _ _ hnames
  | cons c cs =>
      have hhead : p.text.toList.head? ≠ some '/' := by
        rw [htext, List.cons_append, List.head?_cons]
        rintro ⟨⟩
        exact ha (List.mem_cons_self ..)
      have hnames := eqvGen_names (a := c :: cs) (by simp) ps
      by_cases hdot : c :: cs = ['.']
      · have hcomponents : p.components = .here :: (ps.filter isName).map .name := by
          simp [components, hparts, hhead, hdot, isName]
        rw [hcomponents, ofComponents, flatMap_chars_names, hp]
        exact hdot ▸ hnames
      · have hname : isName (c :: cs) = true := by simpa [isName] using hdot
        have hcomponents : p.components = .name (c :: cs) :: (ps.filter isName).map .name := by
          simp [components, hparts, hhead, hdot, List.filter_cons_of_pos hname]
        rw [hcomponents, ofComponents, flatMap_chars_names, hp]
        exact hnames

/-- Two spellings name one file just when steps lead from one to the other. -/
theorem same_iff_eqvGen : p.Same q ↔ EqvGen SpellingStep p q := by
  constructor
  · intro h
    have hq : EqvGen SpellingStep (ofComponents p.components) q :=
      h ▸ (eqvGen_ofComponents q).symm
    exact (eqvGen_ofComponents p).trans _ _ _ hq
  · intro h
    induction h with
    | rel _ _ h => exact h.same
    | refl p => exact p.same_refl
    | symm _ _ _ ih => exact ih.symm
    | trans _ _ _ _ _ ih ih' => exact ih.trans ih'

/-- No step takes away a leading slash or a leading `.`. -/
example : (mk "a//b/./c/").Same ⟨"a/b/c"⟩ ∧ ¬(mk "./a").Same ⟨"a"⟩ ∧ ¬(mk "/a").Same ⟨"a"⟩ := by
  decide

end ModulePath

end ImportRepair
