import ImportRepair.Proofs.AcceptedDeclarations

/-!
# What is validated, and what is told of the rest

Two arguments are accepted in four shapes, and each shape fixes what is made from it
(`validate_accepts`). Two lists that may not stand together are refused for one entry: the first one
at fault in the regular list, whatever the dev list is, and otherwise the first one in the dev list
(`validate_names_eq_error_iff`).

## Implementation notes

Whether an entry is at fault depends on the entries before it alone. The check carries these along,
so statements about a run of it allow names that stand before the list; at the start there are none.
-/

namespace ImportRepair

/-- A name is at fault after the names of `before`: it is invalid, one of `others`, or repeated. -/
def Faulty (others before : List String) (n : String) : Prop :=
  isUserRepoName n = false ∨ n ∈ others ∨ n ∈ before

/-- The entry at an index is the first one at fault in a list that comes after the names of
`before`. -/
structure FirstFault (others before ns : List String) (i : Nat) (n : String) : Prop where
  entry : ns[i]? = some n
  faulty : Faulty others (before ++ ns.take i) n
  first : ∀ j < i, ∀ m, ns[j]? = some m → ¬Faulty others (before ++ ns.take j) m

/-- What is told of a faulty name. -/
def faultOf (kind : DepKind) (others : List String) (n : String) : DeclarationError :=
  if isUserRepoName n = false then .invalidName kind n
  else if n ∈ others then .crossKind n
  else .duplicate kind n

variable {kind : DepKind} {others before ns : List String} {n m : String} {i : Nat}
  {err : DeclarationError}

/-- A check stops at a faulty entry and otherwise goes on with one more name before the rest. -/
theorem fault?_cons (kind : DepKind) (others before : List String) (n : String)
    (ns : List String) :
    (Faulty others before n ∧ fault? kind others before (n :: ns) = some (faultOf kind others n)) ∨
      (¬Faulty others before n ∧
        fault? kind others before (n :: ns) = fault? kind others (n :: before) ns) := by
  simp only [Faulty, fault?, faultOf]
  by_cases hvalid : isUserRepoName n = false
  · simp [hvalid]
  by_cases hothers : n ∈ others
  · simp [hvalid, hothers]
  by_cases hbefore : n ∈ before
  · simp [hvalid, hothers, hbefore]
  · simp [hvalid, hothers, hbefore]

/-- The order of the names before does not matter. -/
theorem faulty_cons_iff {l : List String} :
    Faulty others ((n :: before) ++ l) m ↔ Faulty others (before ++ n :: l) m := by
  simp only [Faulty, List.cons_append, List.mem_cons, List.mem_append]
  grind

theorem firstFault_zero_iff : FirstFault others before (n :: ns) 0 m ↔
    m = n ∧ Faulty others before n := by
  constructor
  · intro h
    obtain rfl : n = m := Option.some.inj h.entry
    exact ⟨rfl, by simpa using h.faulty⟩
  · rintro ⟨rfl, hm⟩
    exact ⟨rfl, by simpa using hm, fun j hj => absurd hj (Nat.not_lt_zero j)⟩

theorem firstFault_succ_iff : FirstFault others before (n :: ns) (i + 1) m ↔
    ¬Faulty others before n ∧ FirstFault others (n :: before) ns i m := by
  constructor
  · intro h
    refine ⟨by simpa using h.first 0 (Nat.succ_pos i) n rfl, h.entry, ?_, ?_⟩
    · exact faulty_cons_iff.mpr h.faulty
    · intro j hj m' hm'
      rw [faulty_cons_iff]
      exact h.first (j + 1) (Nat.succ_lt_succ hj) m' hm'
  · rintro ⟨hn, h⟩
    refine ⟨h.entry, faulty_cons_iff.mp h.faulty, ?_⟩
    rintro (_ | j) hj m' hm'
    · obtain rfl : n = m' := Option.some.inj hm'
      simpa using hn
    · have hrest := h.first j (Nat.lt_of_succ_lt_succ hj) m' hm'
      rwa [faulty_cons_iff] at hrest

/-- A fault is told of the first entry at fault. -/
theorem fault?_eq_some_iff : fault? kind others before ns = some err ↔
    ∃ i n, FirstFault others before ns i n ∧ err = faultOf kind others n := by
  induction ns generalizing before with
  | nil =>
      simp only [fault?, reduceCtorEq, false_iff]
      rintro ⟨i, n, h, -⟩
      cases h.entry
  | cons n ns ih =>
      rcases fault?_cons kind others before n ns with ⟨hn, hfault⟩ | ⟨hn, hfault⟩
      · rw [hfault]
        constructor
        · intro heq
          exact ⟨0, n, firstFault_zero_iff.mpr ⟨rfl, hn⟩, (Option.some.inj heq).symm⟩
        · rintro ⟨_ | i, m, h, rfl⟩
          · rw [(firstFault_zero_iff.mp h).1]
          · exact absurd hn (firstFault_succ_iff.mp h).1
      · rw [hfault, ih]
        constructor
        · rintro ⟨i, m, h, heq⟩
          exact ⟨i + 1, m, firstFault_succ_iff.mpr ⟨hn, h⟩, heq⟩
        · rintro ⟨_ | i, m, h, heq⟩
          · exact absurd (firstFault_zero_iff.mp h).2 hn
          · exact ⟨i, m, (firstFault_succ_iff.mp h).2, heq⟩

/-- Where there is no first entry at fault, there is none. -/
theorem fault?_eq_none_iff_forall : fault? kind others before ns = none ↔
    ∀ i n, ns[i]? = some n → ¬Faulty others (before ++ ns.take i) n := by
  constructor
  · intro hnone i
    induction i using Nat.strongRecOn with
    | ind i ih =>
        intro n hn hfaulty
        have hsome : fault? kind others before ns = some (faultOf kind others n) :=
          fault?_eq_some_iff.mpr ⟨i, n, ⟨hn, hfaulty, ih⟩, rfl⟩
        rw [hnone] at hsome
        cases hsome
  · intro h
    cases hfault : fault? kind others before ns with
    | none => rfl
    | some err =>
        obtain ⟨i, n, hfirst, -⟩ := fault?_eq_some_iff.mp hfault
        exact absurd hfirst.faulty (h i n hfirst.entry)

namespace DirectDeps

/-- The dev list is looked at when the regular list has no fault. -/
theorem ofLists_eq_error_iff {regular dev : List String} :
    ofLists regular dev = .error err ↔ fault? .regular [] [] regular = some err ∨
      (fault? .regular [] [] regular = none ∧ fault? .dev regular [] dev = some err) := by
  rw [ofLists]
  split
  · rename_i e hr
    simp [hr]
  · rename_i hr
    split
    · rename_i e hd
      simp [hr, hd]
    · rename_i hd
      simp [hr, hd]

end DirectDeps

namespace Declaration

variable {deps devDeps : Argument} {flag : Bool} {d : Declaration}

theorem toRecord_eq_of_none_iff :
    d.toRecord = ⟨none, none, none, flag⟩ ↔ d.opinion = .none ∧ d.reproducible = flag := by
  obtain ⟨_ | _ | _, _⟩ := d <;> simp [toRecord, regular?, dev?, useAll?]

theorem toRecord_eq_of_all_iff :
    d.toRecord = ⟨none, none, some kind, flag⟩ ↔
      d.opinion = .all kind ∧ d.reproducible = flag := by
  obtain ⟨_ | _ | _, _⟩ := d <;> simp [toRecord, regular?, dev?, useAll?]

theorem toRecord_eq_of_listed_iff {regular dev : List String} :
    d.toRecord = ⟨some regular, some dev, none, flag⟩ ↔
      (∃ lists : DirectDeps, d.opinion = .listed lists ∧ lists.regular = regular ∧
        lists.dev = dev) ∧ d.reproducible = flag := by
  obtain ⟨_ | _ | _, _⟩ := d <;> simp [toRecord, regular?, dev?, useAll?, and_assoc]

/-- What is made from two arguments, by its record. -/
theorem validate_eq_ok_iff_toRecord : validate deps devDeps flag = .ok d ↔
    (deps = .omitted ∧ devDeps = .omitted ∧ d.toRecord = ⟨none, none, none, flag⟩) ∨
      (deps = .text "all" ∧ devDeps = .names [] ∧
        d.toRecord = ⟨none, none, some .regular, flag⟩) ∨
      (deps = .names [] ∧ devDeps = .text "all" ∧ d.toRecord = ⟨none, none, some .dev, flag⟩) ∨
      ∃ regular dev, deps = .names regular ∧ devDeps = .names dev ∧
        d.toRecord = ⟨some regular, some dev, none, flag⟩ := by
  simp only [validate_eq_ok_iff, opinionOf_eq_ok_iff, toRecord_eq_of_none_iff,
    toRecord_eq_of_all_iff, toRecord_eq_of_listed_iff, Argument.all]
  constructor
  · rintro ⟨⟨hdeps, hdev, ho⟩ | ⟨hdeps, hdev, ho⟩ | ⟨hdeps, hdev, ho⟩ | ⟨lists, hdeps, hdev, ho⟩,
      hflag⟩
    · exact Or.inl ⟨hdeps, hdev, ho, hflag⟩
    · exact Or.inr (Or.inl ⟨hdeps, hdev, ho, hflag⟩)
    · exact Or.inr (Or.inr (Or.inl ⟨hdeps, hdev, ho, hflag⟩))
    · exact Or.inr (Or.inr (Or.inr ⟨_, _, hdeps, hdev, ⟨lists, ho, rfl, rfl⟩, hflag⟩))
  · rintro (⟨hdeps, hdev, ho, hflag⟩ | ⟨hdeps, hdev, ho, hflag⟩ | ⟨hdeps, hdev, ho, hflag⟩ |
      ⟨_, _, hdeps, hdev, ⟨lists, ho, rfl, rfl⟩, hflag⟩)
    · exact ⟨Or.inl ⟨hdeps, hdev, ho⟩, hflag⟩
    · exact ⟨Or.inr (Or.inl ⟨hdeps, hdev, ho⟩), hflag⟩
    · exact ⟨Or.inr (Or.inr (Or.inl ⟨hdeps, hdev, ho⟩)), hflag⟩
    · exact ⟨Or.inr (Or.inr (Or.inr ⟨lists, hdeps, hdev, ho⟩)), hflag⟩

/-- Two arguments are accepted just when both are left out, when one claims every repository and the
other is an empty list, or when both are lists that may stand together. What is made from them has no
list in the first three shapes, and has the lists as they were given in the last one. -/
theorem validate_accepts (deps devDeps : Argument) (flag : Bool) :
    ((∃ d, validate deps devDeps flag = .ok d) ↔
        (deps = .omitted ∧ devDeps = .omitted) ∨
          (deps = .text "all" ∧ devDeps = .names []) ∨
          (deps = .names [] ∧ devDeps = .text "all") ∨
          ∃ regular dev, deps = .names regular ∧ devDeps = .names dev ∧ Compatible regular dev) ∧
      ∀ d, validate deps devDeps flag = .ok d ↔
        (deps = .omitted ∧ devDeps = .omitted ∧ d.toRecord = ⟨none, none, none, flag⟩) ∨
          (deps = .text "all" ∧ devDeps = .names [] ∧
            d.toRecord = ⟨none, none, some .regular, flag⟩) ∨
          (deps = .names [] ∧ devDeps = .text "all" ∧
            d.toRecord = ⟨none, none, some .dev, flag⟩) ∨
          ∃ regular dev, deps = .names regular ∧ devDeps = .names dev ∧
            d.toRecord = ⟨some regular, some dev, none, flag⟩ := by
  refine ⟨?_, fun d => validate_eq_ok_iff_toRecord⟩
  simp only [validate_eq_ok_iff_toRecord]
  constructor
  · rintro ⟨d, ⟨hdeps, hdev, -⟩ | ⟨hdeps, hdev, -⟩ | ⟨hdeps, hdev, -⟩ | ⟨_, _, hdeps, hdev, h⟩⟩
    · exact Or.inl ⟨hdeps, hdev⟩
    · exact Or.inr (Or.inl ⟨hdeps, hdev⟩)
    · exact Or.inr (Or.inr (Or.inl ⟨hdeps, hdev⟩))
    · obtain ⟨⟨lists, -, rfl, rfl⟩, -⟩ := toRecord_eq_of_listed_iff.mp h
      exact Or.inr (Or.inr (Or.inr ⟨_, _, hdeps, hdev, lists.compatible⟩))
  · rintro (⟨hdeps, hdev⟩ | ⟨hdeps, hdev⟩ | ⟨hdeps, hdev⟩ | ⟨_, _, hdeps, hdev, hc⟩)
    · exact ⟨⟨.none, flag⟩, Or.inl ⟨hdeps, hdev, rfl⟩⟩
    · exact ⟨⟨.all .regular, flag⟩, Or.inr (Or.inl ⟨hdeps, hdev, rfl⟩)⟩
    · exact ⟨⟨.all .dev, flag⟩, Or.inr (Or.inr (Or.inl ⟨hdeps, hdev, rfl⟩))⟩
    · exact ⟨⟨.listed (.ofCompatible hc), flag⟩, Or.inr (Or.inr (Or.inr ⟨_, _, hdeps, hdev, rfl⟩))⟩

theorem validate_names (regular dev : List String) (flag : Bool) :
    validate (.names regular) (.names dev) flag =
      (DirectDeps.ofLists regular dev).map fun lists => ⟨.listed lists, flag⟩ := by
  simp only [validate, opinionOf, Argument.all, Argument.isText, Argument.toNames, reduceCtorEq,
    false_and, or_self, Bool.false_eq_true, if_false, bind, Except.bind]
  cases DirectDeps.ofLists regular dev <;> rfl

/-- Two lists are refused for the first entry at fault in the regular list, and if there is none for
the first one in the dev list, where a regular name is at fault too. An invalid name is told as such,
and a dev entry that is a regular name rather than as a repeated one. -/
theorem validate_names_eq_error_iff (regular dev : List String) (flag : Bool)
    (err : DeclarationError) :
    validate (.names regular) (.names dev) flag = .error err ↔
      (∃ i n, FirstFault [] [] regular i n ∧
        err = if isUserRepoName n = false then .invalidName .regular n
          else .duplicate .regular n) ∨
      ((∀ i n, regular[i]? = some n → ¬Faulty [] (regular.take i) n) ∧
        ∃ j n, FirstFault regular [] dev j n ∧
          err = if isUserRepoName n = false then .invalidName .dev n
            else if n ∈ regular then .crossKind n
            else .duplicate .dev n) := by
  have hlists : validate (.names regular) (.names dev) flag = .error err ↔
      DirectDeps.ofLists regular dev = .error err := by
    rw [validate_names]
    cases DirectDeps.ofLists regular dev <;> simp [Except.map]
  rw [hlists, DirectDeps.ofLists_eq_error_iff, fault?_eq_none_iff_forall, fault?_eq_some_iff,
    fault?_eq_some_iff]
  simp only [faultOf, List.nil_append, List.not_mem_nil, if_false]

/-- The second dev entry is a regular name and the third one is repeated. -/
example : validate (.names ["a"]) (.names ["b", "a", "b"]) true = .error (.crossKind "a") := by rfl

end Declaration

end ImportRepair
