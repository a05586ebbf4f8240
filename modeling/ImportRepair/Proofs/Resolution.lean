import ImportRepair.Proofs.AcceptedDeclarations
import ImportRepair.Proofs.Expected

/-!
# What a declaration resolves to

Against the repositories that were generated, a declaration expects nothing, expects imports of both
kinds, or is refused for names in one of its lists. `expected_outcome` says when each of these
happens and with what result, and that the order of the lists shows in nothing but the order in which
unknown names are told.
-/

namespace ImportRepair

/-- The names of a list that were not generated, in the order of the list, each once. -/
structure UnknownOf (generated : RepoSet) (list names : List String) : Prop where
  sublist : names.Sublist list
  nodup : names.Nodup
  mem_iff : ∀ n, n ∈ names ↔ n ∈ list ∧ n ∉ generated

theorem unknownOf_filter (generated : RepoSet) {list : List String} (h : list.Nodup) :
    UnknownOf generated list (list.filter fun n => decide (n ∉ generated)) := by
  refine ⟨List.filter_sublist, h.filter _, ?_⟩
  intro n
  rw [List.mem_filter, decide_eq_true_eq]

theorem UnknownOf.ne_nil_iff {generated : RepoSet} {list names : List String}
    (h : UnknownOf generated list names) : names ≠ [] ↔ ∃ n ∈ list, n ∉ generated := by
  constructor
  · intro hne
    obtain ⟨n, hn⟩ := List.exists_mem_of_ne_nil names hne
    exact ⟨n, (h.mem_iff n).mp hn⟩
  · rintro ⟨n, hn, hunknown⟩
    exact List.ne_nil_of_mem ((h.mem_iff n).mpr ⟨hn, hunknown⟩)

theorem RepoSet.ofList_perm {l m : List String} (h : l.Perm m) : ofList l = ofList m := by
  ext n
  rw [mem_ofList, mem_ofList, h.mem_iff]

/-- Lists in another order may stand together as well. -/
theorem Compatible.perm {regular regular' dev dev' : List String} (h : Compatible regular dev)
    (hr : regular.Perm regular') (hd : dev.Perm dev') : Compatible regular' dev' where
  regular_valid n hn := h.regular_valid n (hr.mem_iff.mpr hn)
  dev_valid n hn := h.dev_valid n (hd.mem_iff.mpr hn)
  regular_nodup := hr.nodup_iff.mp h.regular_nodup
  dev_nodup := hd.nodup_iff.mp h.dev_nodup
  disjoint n hn hn' := h.disjoint n (hd.mem_iff.mpr hn) (hr.mem_iff.mpr hn')

/-- The same outcome up to the order in which unknown names are told. -/
inductive SameOutcome {α : Type} : Except RepairError α → Except RepairError α → Prop
  | ok (a : α) : SameOutcome (.ok a) (.ok a)
  | unknown (kind : DepKind) {names names' : List String} (h : names.Perm names') :
      SameOutcome (.error (.unknownRepos kind names)) (.error (.unknownRepos kind names'))

theorem SameOutcome.bind {α β : Type} {x y : Except RepairError α} {f g : α → Except RepairError β}
    (h : SameOutcome x y) (hfg : ∀ a, SameOutcome (f a) (g a)) :
    SameOutcome (x >>= f) (y >>= g) := by
  cases h with
  | ok a => exact hfg a
  | unknown kind h => exact .unknown kind h

/-- A list in another order is refused for the same names in another order. -/
theorem requireGenerated_perm {names names' : List String} (generated : RepoSet) (kind : DepKind)
    (h : names.Perm names') :
    SameOutcome (requireGenerated generated kind names)
      (requireGenerated generated kind names') := by
  by_cases hall : ∀ n ∈ names, n ∈ generated
  · have hall' : ∀ n ∈ names', n ∈ generated := fun n hn => hall n (h.mem_iff.mpr hn)
    rw [requireGenerated_eq_ok_iff.mpr hall, requireGenerated_eq_ok_iff.mpr hall']
    exact .ok ()
  · simp only [not_forall] at hall
    obtain ⟨n, hn, hunknown⟩ := hall
    rw [requireGenerated_eq_error_iff.mpr ⟨⟨n, hn, hunknown⟩, rfl⟩,
      requireGenerated_eq_error_iff.mpr ⟨⟨n, h.mem_iff.mp hn, hunknown⟩, rfl⟩]
    exact .unknown kind (h.filter _)

/-- The same opinion up to the order of its lists. -/
inductive Opinion.Reordered : Opinion → Opinion → Prop
  | none : Reordered .none .none
  | all (kind : DepKind) : Reordered (.all kind) (.all kind)
  | listed {deps deps' : DirectDeps} (h : ∀ kind, (deps.get kind).Perm (deps'.get kind)) :
      Reordered (.listed deps) (.listed deps')

theorem Declaration.Lists.exists_listed {d : Declaration} {regular dev : List String}
    (h : d.Lists regular dev) :
    ∃ deps, d.opinion = .listed deps ∧ deps.regular = regular ∧ deps.dev = dev := by
  obtain ⟨hr, hd, -, -⟩ := h
  cases ho : d.opinion with
  | none => simp [regular?, ho] at hr
  | all kind => simp [regular?, ho] at hr
  | listed deps => exact ⟨deps, rfl, by simpa [regular?, ho] using hr, by simpa [dev?, ho] using hd⟩

namespace Declaration

variable {d d' : Declaration} {generated : RepoSet} {e : PerKind RepoSet} {err : RepairError}

/-- Lists in another order make a declaration too. -/
theorem exists_reordered {regular regular' dev dev' : List String} (h : d.Lists regular dev)
    (hregular : regular.Perm regular') (hdev : dev.Perm dev') :
    ∃ d', validate (.names regular') (.names dev') d.reproducible = .ok d' ∧
      d.opinion.Reordered d'.opinion := by
  obtain ⟨deps, ho, rfl, rfl⟩ := h.exists_listed
  have hc : Compatible regular' dev' := deps.compatible.perm hregular hdev
  refine ⟨⟨.listed (.ofCompatible hc), d.reproducible⟩, ?_, ?_⟩
  · apply validate_eq_ok_iff.mpr
    exact ⟨opinionOf_eq_ok_iff.mpr (Or.inr (Or.inr (Or.inr ⟨_, rfl, rfl, rfl⟩))), rfl⟩
  · rw [ho]
    apply Opinion.Reordered.listed
    intro kind
    cases kind with
    | regular => exact hregular
    | dev => exact hdev

/-- The order of lists shows in nothing but the order of unknown names. -/
theorem sameOutcome_of_reordered (h : d.opinion.Reordered d'.opinion) (generated : RepoSet) :
    SameOutcome (d.expected generated) (d'.expected generated) := by
  generalize ho : d.opinion = o at h
  generalize ho' : d'.opinion = o' at h
  cases h with
  | none =>
      rw [expected_of_none ho, expected_of_none ho']
      exact .ok none
  | all kind =>
      rw [expected_of_all ho, expected_of_all ho']
      exact .ok _
  | @listed deps deps' hperm =>
      have hsets : ∀ kind, RepoSet.ofList (deps.get kind) = RepoSet.ofList (deps'.get kind) :=
        fun kind => RepoSet.ofList_perm (hperm kind)
      simp only [expected_of_listed ho, expected_of_listed ho', hsets]
      apply (requireGenerated_perm generated .dev (hperm .dev)).bind
      intro _
      apply (requireGenerated_perm generated .regular (hperm .regular)).bind
      intro _
      exact .ok _

theorem opinion_eq_none_iff :
    d.opinion = .none ↔ d.regular? = none ∧ d.dev? = none ∧ d.useAll? = none := by
  cases h : d.opinion <;> simp [regular?, dev?, useAll?, h]

theorem useAll?_of_all {kind : DepKind} (h : d.opinion = .all kind) : d.useAll? = some kind := by
  simp only [useAll?, h]

/-- What is expected, by the form of the declaration. -/
theorem form_of_expected (he : d.expected generated = .ok (some e)) :
    (d.useAll? = some .regular ∧ e = ⟨generated, ∅⟩) ∨
      (d.useAll? = some .dev ∧ e = ⟨∅, generated⟩) ∨
      ∃ regular dev, d.Lists regular dev ∧ (∀ n, n ∈ e.regular ↔ n ∈ regular) ∧
        ∀ n, n ∈ e.dev ↔ n ∈ dev := by
  rcases expected_eq_some_iff.mp he with ⟨kind, ho, rfl⟩ | ⟨deps, ho, -, rfl⟩
  · cases kind with
    | regular => exact Or.inl ⟨useAll?_of_all ho, rfl⟩
    | dev => exact Or.inr (Or.inl ⟨useAll?_of_all ho, rfl⟩)
  · exact Or.inr (Or.inr ⟨_, _, lists_of_listed ho, fun _ => RepoSet.mem_ofList,
      fun _ => RepoSet.mem_ofList⟩)

/-- A declaration is refused for the unknown names of its dev list, or else of its regular list. -/
theorem unknownOf_of_expected (h : d.expected generated = .error err) :
    ∃ regular dev kind names, d.Lists regular dev ∧ err = .unknownRepos kind names ∧ names ≠ [] ∧
      UnknownOf generated ((PerKind.mk regular dev).get kind) names ∧
      (kind = .dev ↔ ∃ n ∈ dev, n ∉ generated) := by
  obtain ⟨deps, ho, ⟨hdev, rfl⟩ | ⟨hdev, hregular, rfl⟩⟩ := expected_eq_error_iff.mp h
  · have hnames := unknownOf_filter generated deps.dev_nodup
    exact ⟨_, _, .dev, _, lists_of_listed ho, rfl, hnames.ne_nil_iff.mpr hdev, hnames,
      iff_of_true rfl hdev⟩
  · have hnames := unknownOf_filter generated deps.regular_nodup
    refine ⟨_, _, .regular, _, lists_of_listed ho, rfl, hnames.ne_nil_iff.mpr hregular, hnames, ?_⟩
    apply iff_of_false
    · exact DepKind.noConfusion
    · rintro ⟨n, hn, hunknown⟩
      exact hunknown (hdev n hn)

/-- A declaration is refused just when it lists a name that was not generated. -/
theorem exists_expected_eq_error_iff : (∃ err, d.expected generated = .error err) ↔
    ∃ regular dev, d.Lists regular dev ∧ ∃ n, (n ∈ regular ∨ n ∈ dev) ∧ n ∉ generated := by
  constructor
  · rintro ⟨err, h⟩
    obtain ⟨regular, dev, kind, names, hlists, -, hne, hnames, -⟩ := unknownOf_of_expected h
    obtain ⟨n, hn, hunknown⟩ := hnames.ne_nil_iff.mp hne
    refine ⟨regular, dev, hlists, n, ?_, hunknown⟩
    cases kind with
    | regular => exact Or.inl hn
    | dev => exact Or.inr hn
  · rintro ⟨regular, dev, hlists, n, hn, hunknown⟩
    obtain ⟨deps, ho, rfl, rfl⟩ := hlists.exists_listed
    by_cases hdev : ∃ n ∈ deps.dev, n ∉ generated
    · exact ⟨_, expected_eq_error_iff.mpr ⟨deps, ho, Or.inl ⟨hdev, rfl⟩⟩⟩
    · have hall : ∀ n ∈ deps.dev, n ∈ generated := by simpa using hdev
      have hregular : n ∈ deps.regular := hn.resolve_right fun h => hunknown (hall n h)
      exact ⟨_, expected_eq_error_iff.mpr
        ⟨deps, ho, Or.inr ⟨hall, ⟨n, hregular, hunknown⟩, rfl⟩⟩⟩

/-- What a declaration resolves to. Nothing is expected if the declaration has neither lists nor a
claim. Expected imports are two disjoint sets of generated repositories: all of them as one kind, or
the names of the two lists. A declaration is refused just when it lists a name that was not
generated, for all such names of the dev list, or else of the regular list. The order of the lists
shows in nothing but the order in which these names are told. -/
theorem expected_outcome (d : Declaration) (generated : RepoSet) :
    (d.expected generated = .ok none ↔
        d.regular? = none ∧ d.dev? = none ∧ d.useAll? = none) ∧
      (∀ e, d.expected generated = .ok (some e) →
        (∀ n ∈ e.regular, n ∈ generated) ∧ (∀ n ∈ e.dev, n ∈ generated) ∧
          (∀ n ∈ e.regular, n ∉ e.dev) ∧
          ((d.useAll? = some .regular ∧ e = ⟨generated, ∅⟩) ∨
            (d.useAll? = some .dev ∧ e = ⟨∅, generated⟩) ∨
            ∃ regular dev, d.Lists regular dev ∧ (∀ n, n ∈ e.regular ↔ n ∈ regular) ∧
              ∀ n, n ∈ e.dev ↔ n ∈ dev)) ∧
      ((∃ err, d.expected generated = .error err) ↔
        ∃ regular dev, d.Lists regular dev ∧ ∃ n, (n ∈ regular ∨ n ∈ dev) ∧ n ∉ generated) ∧
      (∀ err, d.expected generated = .error err →
        ∃ regular dev kind names, d.Lists regular dev ∧ err = .unknownRepos kind names ∧
          names ≠ [] ∧ UnknownOf generated ((PerKind.mk regular dev).get kind) names ∧
          (kind = .dev ↔ ∃ n ∈ dev, n ∉ generated)) ∧
      (∀ d' : Declaration, d.opinion.Reordered d'.opinion →
        SameOutcome (d.expected generated) (d'.expected generated)) ∧
      ∀ regular regular' dev dev', d.Lists regular dev → regular.Perm regular' → dev.Perm dev' →
        ∃ d', validate (.names regular') (.names dev') d.reproducible = .ok d' ∧
          d.opinion.Reordered d'.opinion := by
  refine ⟨?_, ?_, exists_expected_eq_error_iff, fun err => unknownOf_of_expected, ?_, ?_⟩
  · rw [expected_eq_none_iff, opinion_eq_none_iff]
  · intro e he
    refine ⟨?_, ?_, ?_, form_of_expected he⟩
    · intro n hn
      exact expected_subset he (k := .regular) hn
    · intro n hn
      exact expected_subset he (k := .dev) hn
    · intro n hn hn'
      have hdev : n ∈ e.get .dev := hn'
      cases expected_disjoint he (k := .regular) hn hdev
  · intro d' h
    exact sameOutcome_of_reordered h generated
  · intro regular regular' dev dev' hlists hregular hdev
    exact exists_reordered hlists hregular hdev

/-- Two regular names, which do not stand in the order of names, and a dev name. -/
def unsortedDeclaration : Declaration where
  opinion := .listed {
    regular := ["zeta", "alpha"]
    dev := ["mid"]
    regular_valid := by decide
    dev_valid := by decide
    regular_nodup := by decide
    dev_nodup := by decide
    disjoint := by decide }
  reproducible := true

theorem expected_outcome_of_unsorted :
    (∃ e, unsortedDeclaration.expected (.ofList ["alpha", "mid", "zeta"]) = .ok (some e) ∧
        ∀ n ∈ e.regular, n ∉ e.dev) ∧
      (∃ names, unsortedDeclaration.expected (.ofList ["mid"]) =
          .error (.unknownRepos .regular names) ∧
        UnknownOf (.ofList ["mid"]) ["zeta", "alpha"] names) ∧
      ∃ d', validate (.names ["alpha", "zeta"]) (.names ["mid"]) true = .ok d' ∧
        SameOutcome (unsortedDeclaration.expected (.ofList ["mid"]))
          (d'.expected (.ofList ["mid"])) := by
  have hok : unsortedDeclaration.expected (.ofList ["alpha", "mid", "zeta"]) =
      .ok (some ⟨.ofList ["zeta", "alpha"], .ofList ["mid"]⟩) := by rfl
  have herr : unsortedDeclaration.expected (.ofList ["mid"]) =
      .error (.unknownRepos .regular ["zeta", "alpha"]) := by rfl
  obtain ⟨-, -, -, hunknown, hreordered, hlists⟩ :=
    expected_outcome unsortedDeclaration (.ofList ["mid"])
  refine ⟨⟨_, hok, ((expected_outcome _ _).2.1 _ hok).2.2.1⟩, ⟨_, herr, ?_⟩, ?_⟩
  · obtain ⟨regular, dev, kind, names, h, heq, -, hnames, -⟩ := hunknown _ herr
    cases heq
    cases h.1
    exact hnames
  · obtain ⟨d', hd', hd⟩ := hlists _ _ _ _ (lists_of_listed rfl) (List.Perm.swap _ _ _)
      (List.Perm.refl _)
    exact ⟨d', hd', hreordered d' hd⟩

end Declaration

end ImportRepair
