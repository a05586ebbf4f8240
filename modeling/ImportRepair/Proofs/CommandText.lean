import ImportRepair.Command

/-!
# Texts of commands and words

A command is read off its text as it was written just when its label and its repositories are
words (`parse_text_eq_ok_iff`). Reading splits a text at blanks, so a name stands for itself only if
it has no blank in it and is not empty.
-/

namespace ImportRepair

/-- A nonempty text without blanks, which stands for itself among other words. -/
def IsWord (s : String) : Prop := s ≠ "" ∧ ∀ c ∈ s.toList, isBlank c = false

-- The list is searched, and not all characters.
instance (s : String) : Decidable (IsWord s) :=
  @instDecidableAnd _ _ inferInstance (List.decidableBAll _ s.toList)

theorem IsWord.toList_ne_nil {s : String} (h : IsWord s) : s.toList ≠ [] := by
  intro hs
  apply h.1
  rw [← String.ofList_toList (s := s), hs]

/-- What a text is split into are words. -/
theorem isWord_of_mem_words {s : String} {cs : List Char} (h : s ∈ (words cs).map String.ofList) :
    IsWord s := by
  obtain ⟨w, hw, rfl⟩ := List.mem_map.mp h
  obtain ⟨hne, hblank⟩ := of_mem_words hw
  refine ⟨?_, by simpa using hblank⟩
  intro hempty
  apply hne
  rw [← String.toList_ofList (l := w), hempty]
  rfl

/-- A word is the only word of its text. -/
theorem words_of_isWord {s : String} (h : IsWord s) : words s.toList = [s.toList] := by
  have hwords : words (s.toList ++ []) = s.toList :: words [] :=
    words_append_of_not_continues h.2 h.toList_ne_nil rfl
  rwa [List.append_nil, words_nil] at hwords

/-- The first piece of a text is empty unless the text begins with a word. -/
theorem exists_splitOnP_eq_cons (cs : List Char) :
    ∃ w ws, cs.splitOnP isBlank = w :: ws ∧ w.isEmpty = !continuesWord cs := by
  cases cs with
  | nil => exact ⟨[], [], List.splitOnP_nil, rfl⟩
  | cons c cs =>
      rw [List.splitOnP_cons_eq_if_modifyHead]
      by_cases hc : isBlank c = true
      · rw [if_pos hc]
        exact ⟨[], _, rfl, by simp [continuesWord, hc]⟩
      · rw [if_neg hc]
        obtain ⟨w, ws, hws⟩ := List.exists_cons_of_ne_nil (List.splitOnP_ne_nil isBlank cs)
        rw [hws]
        exact ⟨c :: w, ws, rfl, by simp [continuesWord, hc]⟩

/-- The words of a text are its nonempty pieces. -/
theorem words_eq_filter_splitOnP (cs : List Char) :
    words cs = (cs.splitOnP isBlank).filter fun piece => !piece.isEmpty := by
  induction cs with
  | nil => simp [List.splitOnP_nil]
  | cons c cs ih =>
      rw [List.splitOnP_cons_eq_if_modifyHead]
      by_cases hc : isBlank c = true
      · rw [words_cons_blank hc, if_pos hc, ih]
        simp
      · obtain ⟨w, ws, hws, hw⟩ := exists_splitOnP_eq_cons cs
        rw [hws] at ih
        rw [words, if_neg hc, if_neg hc, ih, hws]
        cases hcont : continuesWord cs with
        | true => simp [hw, hcont, joinWord]
        | false =>
            have hnil : w = [] := by simpa [hcont] using hw
            simp [hnil]

/-- A blank parts the words before it from the words after it. -/
theorem words_append_blank {c : Char} (hc : isBlank c = true) (l r : List Char) :
    words (l ++ c :: r) = words l ++ words r := by
  simp only [words_eq_filter_splitOnP, List.splitOnP_append_cons l r hc, List.filter_append]

/-- Texts with single spaces before them bring their own words. -/
theorem words_append_flatMap_space (l : List Char) (ts : List String) :
    words (l ++ ts.flatMap fun t => ' ' :: t.toList) =
      words l ++ ts.flatMap fun t => words t.toList := by
  have hspace : isBlank ' ' = true := by decide
  induction ts generalizing l with
  | nil => simp
  | cons t ts ih =>
      calc
        words (l ++ (t :: ts).flatMap fun t => ' ' :: t.toList) =
            words (l ++ ' ' :: (t.toList ++ ts.flatMap fun t => ' ' :: t.toList)) := by
          rw [List.flatMap_cons, List.cons_append]
        _ = words l ++ (words t.toList ++ ts.flatMap fun t => words t.toList) := by
          rw [words_append_blank hspace, ih]
        _ = words l ++ (t :: ts).flatMap fun t => words t.toList := by
          rw [List.flatMap_cons]

/-- Words with single spaces between them are the words of the text. -/
theorem words_spaced {s : String} {ss : List String} (hs : IsWord s) (hss : ∀ t ∈ ss, IsWord t) :
    words (s.toList ++ ss.flatMap fun t => ' ' :: t.toList) = (s :: ss).map String.toList := by
  have hrest : (ss.map fun t => words t.toList) = ss.map fun t => [t.toList] :=
    List.map_congr_left fun t ht => words_of_isWord (hss t ht)
  calc
    words (s.toList ++ ss.flatMap fun t => ' ' :: t.toList) =
        words s.toList ++ (ss.map fun t => words t.toList).flatten := by
      rw [words_append_flatMap_space, List.flatMap_def]
    _ = [s.toList] ++ ss.flatMap fun t => [t.toList] := by
      rw [words_of_isWord hs, hrest, List.flatMap_def]
    _ = (s :: ss).map String.toList := by
      rw [← List.map_eq_flatMap, List.singleton_append, List.map_cons]

theorem Action.isWord_keyword (a : Action) : IsWord a.keyword := by
  cases a <;> decide

namespace Command

/-- What a command must be for its text to be read as the command. -/
structure Readable (c : Command) : Prop where
  label : IsWord c.label
  nonempty : c.repos ≠ ∅
  repos : ∀ n ∈ c.repos, IsWord n

theorem toList_text (c : Command) :
    c.text.toList =
      c.action.keyword.toList ++ (c.label :: c.repos.toList).flatMap fun t => ' ' :: t.toList := by
  simp [text, String.toList_join, List.flatMap_map]

theorem words_text {c : Command} (h : c.Readable) :
    (words c.text.toList).map String.ofList = c.action.keyword :: c.label :: c.repos.toList := by
  have hwords : ∀ t ∈ c.label :: c.repos.toList, IsWord t := by
    intro t ht
    rcases List.mem_cons.mp ht with rfl | ht
    · exact h.label
    · exact h.repos t ht
  rw [toList_text, words_spaced c.action.isWord_keyword hwords, List.map_map]
  simp [Function.comp_def]

/-- A readable command is read off its own text. -/
theorem parse_text {c : Command} (h : c.Readable) : parse c.text = .ok c := by
  obtain ⟨n, ns, hns⟩ : ∃ n ns, c.repos.toList = n :: ns := by
    apply List.exists_cons_of_ne_nil
    intro hnil
    apply h.nonempty
    rw [← RepoSet.ofList_toList c.repos, hnil]
    rfl
  have hset : RepoSet.ofList (n :: ns) = c.repos := by
    rw [← hns, RepoSet.ofList_toList]
  have hread : ofWords (c.action.keyword :: c.label :: n :: ns) = .ok c := by
    simp only [ofWords, Action.ofKeyword?_keyword, ofList, hset]
  simp only [parse, words_text h, hns, hread]

/-- Words stand for a command if they are an action, a label and at least one repository. -/
theorem ofWords_eq_ok_iff {ws : List String} {c : Command} :
    ofWords ws = .ok c ↔
      ∃ a label n ns, ws = a.keyword :: label :: n :: ns ∧ c = ofList a label (n :: ns) := by
  constructor
  · intro h
    cases ws with
    | nil => cases h
    | cons word rest =>
        cases haction : Action.ofKeyword? word with
        | none => simp [ofWords, haction] at h
        | some a =>
            rw [Action.ofKeyword?_eq_some_iff.mp haction]
            rcases rest with _ | ⟨label, _ | ⟨n, ns⟩⟩
            · simp [ofWords, haction] at h
            · simp [ofWords, haction] at h
            · simp only [ofWords, haction, Except.ok.injEq] at h
              exact ⟨a, label, n, ns, rfl, h.symm⟩
  · rintro ⟨a, label, n, ns, rfl, rfl⟩
    simp only [ofWords, Action.ofKeyword?_keyword]

/-- A command that was read from any text is readable. -/
theorem readable_of_parse {t : String} {c : Command} (h : parse t = .ok c) : c.Readable := by
  rw [parse] at h
  split at h
  · rename_i c' hwords
    cases h
    obtain ⟨a, label, n, ns, hws, rfl⟩ := ofWords_eq_ok_iff.mp hwords
    have hword : ∀ s ∈ a.keyword :: label :: n :: ns, IsWord s := by
      intro s hs
      rw [← hws] at hs
      exact isWord_of_mem_words hs
    have hmem : n ∈ (ofList a label (n :: ns)).repos := by simp [ofList]
    refine ⟨hword label (by simp), RepoSet.ne_empty_of_mem hmem, ?_⟩
    intro m hm
    have hm' : m ∈ n :: ns := RepoSet.mem_ofList.mp hm
    exact hword m (List.mem_cons_of_mem _ (List.mem_cons_of_mem _ hm'))
  · cases h

/-- The text of a command is read as the command just when the command is readable. -/
theorem parse_text_eq_ok_iff {c : Command} : parse c.text = .ok c ↔ c.Readable :=
  ⟨readable_of_parse, parse_text⟩

end Command

end ImportRepair
