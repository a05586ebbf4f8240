import ImportRepair.Proofs.CommandText

/-!
# Normal forms of command texts

A text is read by the pieces between its blanks, and the text of a command has the pieces of its
label and of its repositories, one after the other (`splitAtBlanks_text`). So it is known of every
command what its text is read as, and the text is read as the command itself just when the label and
the repositories are words (`parse_text_ofList`). The text of a command that was read is a normal
form: it depends on the action, the label and the set of repositories alone
(`text_of_parse_normal`).

## Implementation notes

`splitAtBlanks` is said by a library function for splitting lists, apart from the way in which words
are found character by character; `words_eq_filter_splitOnP` says that the two agree.
-/

namespace ImportRepair

/-- The pieces between the blanks of a text, without the empty ones. -/
def splitAtBlanks (t : String) : List String :=
  ((t.toList.splitOnP isBlank).filter fun piece => !piece.isEmpty).map String.ofList

theorem splitAtBlanks_eq_words (t : String) :
    splitAtBlanks t = (words t.toList).map String.ofList := by
  rw [splitAtBlanks, words_eq_filter_splitOnP]

/-- A word is not split. -/
theorem splitAtBlanks_of_isWord {s : String} (h : IsWord s) : splitAtBlanks s = [s] := by
  rw [splitAtBlanks_eq_words, words_of_isWord h, List.map_singleton, String.ofList_toList]

theorem Action.keyword_inj {a b : Action} : a.keyword = b.keyword ↔ a = b := by
  constructor
  · intro h
    have hb := ofKeyword?_keyword b
    rw [← h, ofKeyword?_keyword] at hb
    exact Option.some.inj hb
  · exact congrArg keyword

namespace Command

variable {t t₁ t₂ : String} {c c₁ c₂ : Command}

/-- A command is read off a text whose pieces are an action, a label and repositories. -/
theorem parse_eq_ok_iff : parse t = .ok c ↔
    ∃ a label n ns, splitAtBlanks t = a.keyword :: label :: n :: ns ∧
      c = ofList a label (n :: ns) := by
  rw [← ofWords_eq_ok_iff, splitAtBlanks_eq_words, parse]
  cases ofWords ((words t.toList).map String.ofList) <;> simp

/-- The text of a command has the pieces of its label and of its repositories. -/
theorem splitAtBlanks_text (c : Command) :
    splitAtBlanks c.text =
      c.action.keyword :: (splitAtBlanks c.label ++ c.repos.toList.flatMap splitAtBlanks) := by
  have hkeyword : splitAtBlanks c.action.keyword = [c.action.keyword] :=
    splitAtBlanks_of_isWord c.action.isWord_keyword
  calc
    splitAtBlanks c.text = (words c.text.toList).map String.ofList := splitAtBlanks_eq_words c.text
    _ = splitAtBlanks c.action.keyword ++ (c.label :: c.repos.toList).flatMap splitAtBlanks := by
      rw [toList_text, words_append_flatMap_space, List.map_append, List.map_flatMap]
      simp only [← splitAtBlanks_eq_words]
    _ = c.action.keyword :: (splitAtBlanks c.label ++ c.repos.toList.flatMap splitAtBlanks) := by
      rw [hkeyword, List.flatMap_cons, List.singleton_append]

/-- What the text of a command is read as. -/
theorem parse_text_eq_ok_iff_pieces {c' : Command} : parse c.text = .ok c' ↔
    ∃ label n ns, splitAtBlanks c.label ++ c.repos.toList.flatMap splitAtBlanks =
      label :: n :: ns ∧ c' = ofList c.action label (n :: ns) := by
  rw [parse_eq_ok_iff, splitAtBlanks_text]
  constructor
  · rintro ⟨a, label, n, ns, hpieces, rfl⟩
    obtain ⟨hkeyword, hrest⟩ := List.cons.inj hpieces
    rw [Action.keyword_inj.mp hkeyword]
    exact ⟨label, n, ns, hrest, rfl⟩
  · rintro ⟨label, n, ns, hrest, rfl⟩
    exact ⟨c.action, label, n, ns, by rw [hrest], rfl⟩

theorem readable_ofList_iff {action : Action} {label : String} {repos : List String} :
    (ofList action label repos).Readable ↔
      IsWord label ∧ repos ≠ [] ∧ ∀ n ∈ repos, IsWord n := by
  have hempty : RepoSet.ofList repos = ∅ ↔ repos = [] := by
    simp [RepoSet.eq_empty_iff, List.eq_nil_iff_forall_not_mem]
  constructor
  · intro h
    exact ⟨h.label, fun hnil => h.nonempty (hempty.mpr hnil),
      fun n hn => h.repos n (RepoSet.mem_ofList.mpr hn)⟩
  · rintro ⟨hlabel, hne, hrepos⟩
    exact ⟨hlabel, fun hnil => hne (hempty.mp hnil),
      fun n hn => hrepos n (RepoSet.mem_ofList.mp hn)⟩

/-- The text of a command is read as the command just when the label is a word and the repositories
are words, at least one of them. Any other text is refused or read as another command: the first
piece of the label and of the repositories in their order is taken for the label, and the others
are taken for the repositories. -/
theorem parse_text_ofList (action : Action) (label : String) (repos : List String) :
    (parse (ofList action label repos).text = .ok (ofList action label repos) ↔
        IsWord label ∧ repos ≠ [] ∧ ∀ n ∈ repos, IsWord n) ∧
      (¬(IsWord label ∧ repos ≠ [] ∧ ∀ n ∈ repos, IsWord n) →
        (∃ err, parse (ofList action label repos).text = .error err) ∨
          ∃ c, parse (ofList action label repos).text = .ok c ∧
            c ≠ ofList action label repos) ∧
      ∀ c, parse (ofList action label repos).text = .ok c ↔
        ∃ label' n ns,
          splitAtBlanks label ++ (RepoSet.ofList repos).toList.flatMap splitAtBlanks =
            label' :: n :: ns ∧
          c = ofList action label' (n :: ns) := by
  have hself : parse (ofList action label repos).text = .ok (ofList action label repos) ↔
      IsWord label ∧ repos ≠ [] ∧ ∀ n ∈ repos, IsWord n := by
    rw [parse_text_eq_ok_iff, readable_ofList_iff]
  refine ⟨hself, ?_, fun c => parse_text_eq_ok_iff_pieces⟩
  intro hwords
  cases hread : parse (ofList action label repos).text with
  | error err => exact Or.inl ⟨err, rfl⟩
  | ok c =>
      refine Or.inr ⟨c, rfl, ?_⟩
      intro heq
      apply hwords
      rw [← hself, hread, heq]

/-- A label of two words gives its second one away, and an empty label takes the only repository. -/
theorem parse_text_ofList_of_badLabels :
    ¬IsWord "my ext" ∧
      (∃ c, parse (ofList .remove "my ext" ["c"]).text = .ok c ∧
        c = ofList .remove "my" ["ext", "c"] ∧ c ≠ ofList .remove "my ext" ["c"]) ∧
      ¬IsWord "" ∧ ∃ err, parse (ofList .add "" ["a"]).text = .error err := by
  have htwo : ¬IsWord "my ext" := by decide
  have hnone : ¬IsWord "" := by decide
  refine ⟨htwo, ?_, hnone, ?_⟩
  · have hread := (parse_text_ofList .remove "my ext" ["c"]).2.2
    have hc := (hread _).mpr ⟨"my", "ext", ["c"], by decide, rfl⟩
    exact ⟨_, hc, rfl, by decide⟩
  · have hwords : ¬(IsWord "" ∧ ["a"] ≠ [] ∧ ∀ n ∈ ["a"], IsWord n) := fun h => hnone h.1
    rcases (parse_text_ofList .add "" ["a"]).2.1 hwords with herr | ⟨c, hc, -⟩
    · exact herr
    · obtain ⟨label, n, ns, hpieces, -⟩ := ((parse_text_ofList .add "" ["a"]).2.2 c).mp hc
      have hone : splitAtBlanks "" ++ (RepoSet.ofList ["a"]).toList.flatMap splitAtBlanks =
          ["a"] := by decide
      rw [hone] at hpieces
      cases hpieces

/-- A text with at least three pieces is read if the first one is an action. -/
theorem exists_parse_iff : (∃ c, parse t = .ok c) ↔
    3 ≤ (splitAtBlanks t).length ∧ ∃ a : Action, (splitAtBlanks t).head? = some a.keyword := by
  constructor
  · rintro ⟨c, hc⟩
    obtain ⟨a, label, n, ns, hpieces, -⟩ := parse_eq_ok_iff.mp hc
    rw [hpieces]
    exact ⟨by simp, a, rfl⟩
  · rintro ⟨hlength, a, hhead⟩
    match hpieces : splitAtBlanks t with
    | [] | [_] | [_, _] => simp [hpieces] at hlength
    | word :: label :: n :: ns =>
        have hword : word = a.keyword := by simpa [hpieces] using hhead
        exact ⟨_, parse_eq_ok_iff.mpr ⟨a, label, n, ns, hword ▸ hpieces, rfl⟩⟩

/-- Readable commands are told apart by their texts. -/
theorem Readable.text_inj (h₁ : c₁.Readable) (h₂ : c₂.Readable) :
    c₁.text = c₂.text ↔ c₁ = c₂ := by
  constructor
  · intro htext
    have hread : parse c₁.text = parse c₂.text := congrArg parse htext
    rw [parse_text h₁, parse_text h₂] at hread
    exact Except.ok.inj hread
  · exact congrArg text

theorem ofList_inj {a₁ a₂ : Action} {label₁ label₂ : String} {ns₁ ns₂ : List String} :
    ofList a₁ label₁ ns₁ = ofList a₂ label₂ ns₂ ↔
      a₁ = a₂ ∧ label₁ = label₂ ∧ ∀ n, n ∈ ns₁ ↔ n ∈ ns₂ := by
  simp only [ofList, Command.mk.injEq, RepoSet.ext_iff, RepoSet.mem_ofList]

/-- Two texts are read as the same command if they agree in their first two pieces and in the set of
the others. -/
theorem eq_iff_of_parse (h₁ : parse t₁ = .ok c₁) (h₂ : parse t₂ = .ok c₂) :
    c₁ = c₂ ↔ (splitAtBlanks t₁).take 2 = (splitAtBlanks t₂).take 2 ∧
      ∀ n, n ∈ (splitAtBlanks t₁).drop 2 ↔ n ∈ (splitAtBlanks t₂).drop 2 := by
  obtain ⟨a₁, label₁, n₁, ns₁, hpieces₁, rfl⟩ := parse_eq_ok_iff.mp h₁
  obtain ⟨a₂, label₂, n₂, ns₂, hpieces₂, rfl⟩ := parse_eq_ok_iff.mp h₂
  rw [ofList_inj, hpieces₁, hpieces₂]
  simp [Action.keyword_inj, and_assoc]

/-- A text is read if it has at least three pieces and the first one is an action. What is read is
read off its own text again, so this text is a normal form: it renders to itself, and two texts have
the same one just when they agree in the action, in the label and in the set of repositories. -/
theorem text_of_parse_normal :
    (∀ t, (∃ c, parse t = .ok c) ↔
        3 ≤ (splitAtBlanks t).length ∧
          ((splitAtBlanks t).head? = some "use_repo_add" ∨
            (splitAtBlanks t).head? = some "use_repo_remove")) ∧
      (∀ t c, parse t = .ok c → parse c.text = .ok c ∧
        (parse c.text).map text = .ok c.text) ∧
      ∀ t₁ t₂ c₁ c₂, parse t₁ = .ok c₁ → parse t₂ = .ok c₂ →
        (c₁.text = c₂.text ↔
          (splitAtBlanks t₁).take 2 = (splitAtBlanks t₂).take 2 ∧
            ∀ n, n ∈ (splitAtBlanks t₁).drop 2 ↔ n ∈ (splitAtBlanks t₂).drop 2) := by
  refine ⟨?_, ?_, ?_⟩
  · intro t
    rw [exists_parse_iff]
    apply and_congr_right
    intro _
    constructor
    · rintro ⟨a, ha⟩
      cases a with
      | add => exact Or.inl ha
      | remove => exact Or.inr ha
    · intro h
      rcases h with hadd | hremove
      · exact ⟨.add, hadd⟩
      · exact ⟨.remove, hremove⟩
  · intro t c hc
    have hself : parse c.text = .ok c := parse_text (readable_of_parse hc)
    exact ⟨hself, by rw [hself, Except.map]⟩
  · intro t₁ t₂ c₁ c₂ h₁ h₂
    rw [Readable.text_inj (readable_of_parse h₁) (readable_of_parse h₂), eq_iff_of_parse h₁ h₂]

/-- Blanks of several kinds, and the same repositories in another order and repeated. -/
theorem text_of_parse_normal_of_spellings :
    ∃ c₁ c₂, parse "use_repo_add ext b a" = .ok c₁ ∧
      parse "\tuse_repo_add  ext\u3000a\nb a " = .ok c₂ ∧ c₁.text = c₂.text ∧
      parse c₁.text = .ok c₁ := by
  have h₁ : parse "use_repo_add ext b a" = .ok (ofList .add "ext" ["b", "a"]) := by rfl
  have h₂ : parse "\tuse_repo_add  ext\u3000a\nb a " = .ok (ofList .add "ext" ["a", "b", "a"]) := by
    rfl
  refine ⟨_, _, h₁, h₂, ?_, (text_of_parse_normal.2.1 _ _ h₁).1⟩
  rw [text_of_parse_normal.2.2 _ _ _ _ h₁ h₂]
  have hpieces₁ : splitAtBlanks "use_repo_add ext b a" = ["use_repo_add", "ext", "b", "a"] := by
    decide
  have hpieces₂ : splitAtBlanks "\tuse_repo_add  ext\u3000a\nb a " =
      ["use_repo_add", "ext", "a", "b", "a"] := by
    decide
  rw [hpieces₁, hpieces₂]
  simp [or_comm]

end Command

end ImportRepair
