import ImportRepair.Json.Tree
import Mathlib.Data.List.Basic

/-!
# Lexemes and the space between them

The lexemes of a text are its quoted strings, its structural characters, and the runs of other
characters that stand together. They are told apart without regard to what they mean. The tokens of
a text are those of its lexemes (`tokens_eq_foldr_lexemes`), and so is the document: space between
lexemes does not matter.

## Implementation notes

A run may hold several tokens, or a part that is no token. After such a part a text has no tokens
any more, so the tokens of lexemes are joined by `follow` and not by appending them.
-/

namespace ImportRepair.Json

/-- The characters that may stand between lexemes. -/
def blanks : List Char := [' ', '\t', '\n', '\r']

/-- The characters that are lexemes of their own. -/
def structural : List Char := ['[', ']', '{', '}', ',', ':']

/-- Holds for the characters that make up runs. -/
def isBare (c : Char) : Bool := c ∉ blanks && c ∉ structural && c != '"'

/-- The text up to the closing quote of a string, and what follows it; a character after a backslash
closes nothing. -/
def spanQuoted : List Char → List Char × List Char
  | [] => ([], [])
  | '"' :: cs => (['"'], cs)
  | '\\' :: c :: cs => ('\\' :: c :: (spanQuoted cs).1, (spanQuoted cs).2)
  | c :: cs => (c :: (spanQuoted cs).1, (spanQuoted cs).2)

/-- The lexeme that begins with a character, and what follows it. -/
def spanLexeme (c : Char) (cs : List Char) : List Char × List Char :=
  if c = '"' then (c :: (spanQuoted cs).1, (spanQuoted cs).2)
  else if c ∈ structural then ([c], cs)
  else (c :: cs.takeWhile isBare, cs.dropWhile isBare)

/-- The lexemes of a text, of which there are no more than `fuel`. -/
def lexemesWithin : Nat → List Char → List (List Char)
  | 0, _ => []
  | _, [] => []
  | fuel + 1, c :: cs =>
    if c ∈ blanks then lexemesWithin fuel cs
    else (spanLexeme c cs).1 :: lexemesWithin fuel (spanLexeme c cs).2

/-- The lexemes of a text. -/
def lexemes (cs : List Char) : List (List Char) := lexemesWithin cs.length cs

theorem isSpace_iff_mem_blanks {c : Char} : isSpace c = true ↔ c ∈ blanks := by
  simp [isSpace, blanks, or_assoc]

theorem spanQuoted_append (cs : List Char) : (spanQuoted cs).1 ++ (spanQuoted cs).2 = cs := by
  fun_induction spanQuoted cs <;> simp [*]

theorem length_spanLexeme (c : Char) (cs : List Char) : (spanLexeme c cs).2.length ≤ cs.length := by
  rw [spanLexeme]
  split
  · have h := congrArg List.length (spanQuoted_append cs)
    rw [List.length_append] at h
    exact Nat.le.intro ((Nat.add_comm _ _).trans h)
  · split
    · exact Nat.le_refl _
    · exact (List.dropWhile_sublist isBare).length_le

/-- Characters that stand in one run. -/
def IsRun (cs : List Char) : Prop := ∀ c ∈ cs, isBare c = true

-- A quantifier over all characters may be decided by trying every character.
instance (cs : List Char) : Decidable (IsRun cs) :=
  decidable_of_iff (cs.all isBare = true) List.all_eq_true

/-- A text before which every run ends. -/
def EndsRuns (cs : List Char) : Prop := ∀ c ∈ cs.head?, isBare c = false

theorem EndsRuns.ne_of_isBare {c d : Char} {cs : List Char} (h : EndsRuns (c :: cs))
    (hd : isBare d = true) : c ≠ d := by
  rintro rfl
  rw [h c rfl] at hd
  cases hd

theorem isBare_of_isDigit {c : Char} (h : c.isDigit = true) : isBare c = true := by
  have hne : ∀ d ∈ '"' :: (blanks ++ structural), c ≠ d := by
    have hdigits : ('"' :: (blanks ++ structural)).all (!·.isDigit) = true := by decide
    rintro d hd rfl
    have hdigit := List.all_eq_true.mp hdigits c hd
    rw [h] at hdigit
    cases hdigit
  simp only [List.forall_mem_cons, List.forall_mem_append] at hne
  simp only [isBare, Bool.and_eq_true, decide_eq_true_eq, bne_iff_ne]
  exact ⟨⟨fun hc => hne.2.1 c hc rfl, fun hc => hne.2.2 c hc rfl⟩, hne.1⟩

/-- What is read from a run does not depend on what follows the run, and leaves a run. -/
def ReadsRuns {α : Type} (f : List Char → Option (α × List Char)) : Prop :=
  ∀ cs rest, IsRun cs → EndsRuns rest →
    f (cs ++ rest) = (f cs).map (fun r => (r.1, r.2 ++ rest)) ∧ ∀ r, f cs = some r → IsRun r.2

theorem ReadsRuns.bind {α β : Type} {f : List Char → Option (α × List Char)}
    {g : α → List Char → Option (β × List Char)} (hf : ReadsRuns f) (hg : ∀ a, ReadsRuns (g a)) :
    ReadsRuns fun cs => (f cs).bind fun r => g r.1 r.2 := by
  intro cs rest hcs hrest
  obtain ⟨happend, hrun⟩ := hf cs rest hcs hrest
  cases hr : f cs with
  | none => simp [happend, hr]
  | some r =>
      simp only [happend, hr, Option.map_some, Option.bind_some]
      exact hg r.1 r.2 rest (hrun r hr) hrest

theorem ReadsRuns.pure {α : Type} (a : α) : ReadsRuns fun cs => some (a, cs) := by
  intro cs rest hcs _
  refine ⟨rfl, ?_⟩
  rintro r ⟨⟩
  exact hcs

theorem ReadsRuns.map {α β : Type} {f : List Char → Option (α × List Char)} (hf : ReadsRuns f)
    (h : α → β) : ReadsRuns fun cs => (f cs).map fun r => (h r.1, r.2) := by
  have hmap : (fun cs => (f cs).map fun r => (h r.1, r.2)) =
      fun cs => (f cs).bind fun r => some (h r.1, r.2) := by
    funext cs
    exact Option.map_eq_bind
  rw [hmap]
  exact hf.bind fun a => .pure (h a)

theorem ReadsRuns.none {α : Type} :
    ReadsRuns fun _ => (Option.none : Option (α × List Char)) := by
  intro cs rest _ _
  refine ⟨rfl, ?_⟩
  rintro r ⟨⟩

theorem head?_ne_of_ne_cons {c : Char} {cs : List Char} (h : ∀ rest, cs = c :: rest → False) :
    cs.head? ≠ some c := by
  intro hhead
  obtain ⟨rest, hcons⟩ := List.head?_eq_some_iff.mp hhead
  exact h rest hcons

/-- One reader goes on after a character, and another one where there is none. -/
theorem ReadsRuns.afterHead {α : Type} {f g : List Char → Option (α × List Char)} {c : Char}
    (hc : isBare c = true) (hf : ReadsRuns f) (hg : ReadsRuns g) :
    ReadsRuns fun cs => if cs.head? = some c then f cs.tail else g cs := by
  intro cs rest hcs hrest
  cases cs with
  | nil =>
      have hhead : rest.head? ≠ some c := by
        intro h
        rw [hrest c h] at hc
        cases hc
      simpa [hhead] using hg [] rest hcs hrest
  | cons d cs =>
      have htail : IsRun cs := fun x hx => hcs x (List.mem_cons_of_mem _ hx)
      by_cases hd : d = c
      · simpa [hd] using hf cs rest htail hrest
      · simpa [hd] using hg (d :: cs) rest hcs hrest

theorem readsRuns_spanDigits : ReadsRuns fun cs => some (spanDigits cs) := by
  intro cs rest hcs hrest
  induction cs with
  | nil =>
      constructor
      · cases rest with
        | nil => rfl
        | cons c rest =>
            have hc : ¬c.isDigit = true := by
              intro hdigit
              exact hrest.ne_of_isBare (isBare_of_isDigit hdigit) rfl
            simp [spanDigits, hc]
      · rintro r ⟨⟩
        exact hcs
  | cons c cs ih =>
      obtain ⟨happend, hrun⟩ := ih fun d hd => hcs d (List.mem_cons_of_mem _ hd)
      by_cases hc : c.isDigit = true
      · simp_all [spanDigits]
      · simp [spanDigits, hc, hcs]

namespace Literal

theorem readWhole_eq (cs : List Char) :
    readWhole cs = (some (spanDigits cs)).bind fun r =>
      if r.1 = [] ∨ (r.1.head? = some 0 ∧ r.1 ≠ [0]) then none else some r := by
  rw [readWhole, Option.bind_some]
  rcases spanDigits cs with ⟨_ | ⟨_ | d, _ | ⟨d', ds⟩⟩, rest⟩ <;> simp

theorem readsRuns_readWhole : ReadsRuns readWhole := by
  rw [funext readWhole_eq]
  apply readsRuns_spanDigits.bind (g := fun ds cs =>
    if ds = [] ∨ (ds.head? = some 0 ∧ ds ≠ [0]) then none else some (ds, cs))
  intro ds
  split
  · exact .none
  · exact .pure ds

/-- Digits after a point or an exponent, of which there has to be one. -/
theorem readsRuns_someDigits {α : Type} (make : List Nat → α) :
    ReadsRuns fun cs => match spanDigits cs with
      | ([], _) => none
      | (ds, rest) => some (make ds, rest) := by
  have hread : (fun cs => match spanDigits cs with
        | ([], _) => none
        | (ds, rest) => some (make ds, rest)) =
      fun cs => (some (spanDigits cs)).bind fun r =>
        if r.1 = [] then none else some (make r.1, r.2) := by
    funext cs
    rw [Option.bind_some]
    rcases spanDigits cs with ⟨_ | ⟨d, ds⟩, rest⟩ <;> rfl
  rw [hread]
  apply readsRuns_spanDigits.bind (g := fun ds cs => if ds = [] then none else some (make ds, cs))
  intro ds
  split
  · exact .none
  · exact .pure _

theorem readFraction_eq (cs : List Char) :
    readFraction cs = if cs.head? = some '.' then
      (match spanDigits cs.tail with
        | ([], _) => none
        | (ds, rest) => some (ds, rest)) else some ([], cs) := by
  rw [readFraction.eq_def]
  split
  · rfl
  · rename_i hne
    rw [if_neg (head?_ne_of_ne_cons hne)]

theorem readsRuns_readFraction : ReadsRuns readFraction := by
  rw [funext readFraction_eq]
  exact .afterHead (by decide) (readsRuns_someDigits id) (.pure [])

theorem readsRuns_readPower (negative : Bool) : ReadsRuns (readPower negative) :=
  readsRuns_someDigits fun ds => some (negative, ds)

/-- The sign of an exponent and its digits. -/
def readSignedPower (cs : List Char) : Option (Option (Bool × List Nat) × List Char) :=
  if cs.head? = some '+' then readPower false cs.tail
  else if cs.head? = some '-' then readPower true cs.tail
  else readPower false cs

theorem readExponent_of_mark {c : Char} (hc : c = 'e' ∨ c = 'E') (cs : List Char) :
    readExponent (c :: cs) = readSignedPower cs := by
  simp only [readExponent.eq_def, if_pos hc, readSignedPower]
  split
  · rfl
  · rfl
  · rename_i hplus hminus
    rw [if_neg (head?_ne_of_ne_cons hplus), if_neg (head?_ne_of_ne_cons hminus)]

theorem readExponent_eq (cs : List Char) :
    readExponent cs =
      if cs.head? = some 'e' then readSignedPower cs.tail
      else if cs.head? = some 'E' then readSignedPower cs.tail
      else some (none, cs) := by
  cases cs with
  | nil => rfl
  | cons c cs =>
      simp only [List.head?_cons, Option.some.injEq, List.tail_cons]
      by_cases hc : c = 'e' ∨ c = 'E'
      · rw [readExponent_of_mark hc]
        rcases hc with rfl | rfl <;> rfl
      · simp only [readExponent.eq_def, if_neg hc]
        rw [not_or] at hc
        rw [if_neg hc.1, if_neg hc.2]

theorem readsRuns_readExponent : ReadsRuns readExponent := by
  have hsigned : ReadsRuns readSignedPower :=
    .afterHead (by decide) (readsRuns_readPower false)
      (.afterHead (by decide) (readsRuns_readPower true) (readsRuns_readPower false))
  rw [funext readExponent_eq]
  exact .afterHead (by decide) hsigned (.afterHead (by decide) hsigned (.pure none))

theorem readsRuns_readUnsigned (negative : Bool) : ReadsRuns (readUnsigned negative) :=
  readsRuns_readWhole.bind fun whole => readsRuns_readFraction.bind fun fraction =>
    readsRuns_readExponent.bind fun exponent =>
      .pure (Literal.mk negative whole fraction exponent)

theorem read_eq (cs : List Char) :
    read cs =
      if cs.head? = some '-' then readUnsigned true cs.tail else readUnsigned false cs := by
  rw [read.eq_def]
  split
  · rfl
  · rename_i hne
    rw [if_neg (head?_ne_of_ne_cons hne)]

theorem readsRuns_read : ReadsRuns read := by
  rw [funext read_eq]
  exact .afterHead (by decide) (readsRuns_readUnsigned true) (readsRuns_readUnsigned false)

end Literal

theorem ReadsRuns.or {α : Type} {f g : List Char → Option (α × List Char)} (hf : ReadsRuns f)
    (hg : ReadsRuns g) : ReadsRuns fun cs => (f cs).or (g cs) := by
  intro cs rest hcs hrest
  have hf := hf cs rest hcs hrest
  cases hr : f cs with
  | none => simpa [hf.1, hr] using hg cs rest hcs hrest
  | some r => simpa [hf.1, hr] using hf.2 r hr

/-- A word of a run is at the front of the run, or it is not there at all. -/
theorem isPrefixOf_append_of_isRun {word cs rest : List Char} (hword : IsRun word)
    (hrest : EndsRuns rest) : word.isPrefixOf (cs ++ rest) = word.isPrefixOf cs := by
  induction word generalizing cs with
  | nil => simp
  | cons a word ih =>
      have ha := hword a (List.mem_cons_self ..)
      cases cs with
      | nil =>
          cases rest with
          | nil => rfl
          | cons c rest =>
              have hc := (hrest.ne_of_isBare ha).symm
              simp [List.isPrefixOf_cons_cons, hc]
      | cons c cs =>
          rw [List.cons_append, List.isPrefixOf_cons_cons, List.isPrefixOf_cons_cons,
            ih fun d hd => hword d (List.mem_cons_of_mem _ hd)]

theorem readsRuns_word {α : Type} {word : List Char} (hword : IsRun word) (a : α) :
    ReadsRuns fun cs => if word.isPrefixOf cs then some (a, cs.drop word.length) else none := by
  intro cs rest hcs hrest
  simp only [isPrefixOf_append_of_isRun hword hrest]
  split
  · rename_i h
    have hlength := (List.isPrefixOf_iff_prefix.mp h).length_le
    constructor
    · simp [List.drop_append_of_le_length hlength]
    · rintro r ⟨⟩
      exact fun c hc => hcs c (List.mem_of_mem_drop hc)
  · simp

theorem readsRuns_readName : ReadsRuns readName := by
  have hnames : ∀ l : List (List Char × Token), (∀ n ∈ l, IsRun n.1) → ReadsRuns fun cs =>
      l.findSome? fun n => if n.1.isPrefixOf cs then some (n.2, cs.drop n.1.length) else none := by
    intro l hl
    induction l with
    | nil => exact .none
    | cons n l ih =>
        have hor := (readsRuns_word (hl n (List.mem_cons_self ..)) n.2).or
          (ih fun m hm => hl m (List.mem_cons_of_mem _ hm))
        convert hor using 2 with cs
        rw [List.findSome?_cons]
        cases n.1.isPrefixOf cs <;> rfl
  apply hnames names
  decide

theorem readToken_of_isBare {c : Char} (hc : isBare c = true) (cs : List Char) :
    readToken (c :: cs) =
      (readName (c :: cs)).or ((Literal.read (c :: cs)).map fun r => (.number r.1, r.2)) := by
  have hne : c ∉ structural ∧ c ≠ '"' := by
    simp only [isBare, Bool.and_eq_true, decide_eq_true_eq, bne_iff_ne] at hc
    exact ⟨hc.1.2, hc.2⟩
  have hpunctuation : punctuation? c = none := by
    simp only [structural, List.mem_cons, List.not_mem_nil, or_false, not_or] at hne
    simp [punctuation?, hne]
  rw [readToken, hpunctuation]
  simp only [if_neg hne.2]
  cases readName (c :: cs) <;> rfl

/-- Tokens that are followed by others, unless the text stopped being JSON before. -/
def follow (ts us : List Token) : List Token := if .stray ∈ ts then ts else ts ++ us

theorem follow_cons {t : Token} (ht : t ≠ .stray) (ts us : List Token) :
    follow (t :: ts) us = t :: follow ts us := by
  simp only [follow, List.mem_cons, ht.symm, false_or]
  split <;> rfl

theorem tokens_of_readToken_eq_none {c : Char} {cs : List Char} (hc : isSpace c = false)
    (h : readToken (c :: cs) = none) : tokens (c :: cs) = [.stray] := by
  simp [tokens, tokensWithin, hc, h]

theorem ne_stray_of_readToken {cs rest : List Char} {t : Token}
    (h : readToken cs = some (t, rest)) : t ≠ .stray := by
  cases cs with
  | nil => cases h
  | cons c cs =>
      rw [readToken] at h
      split at h
      · rename_i t' ht'
        cases h
        rintro rfl
        simp only [punctuation?] at ht'
        split at ht' <;> cases ht'
      · split at h
        · obtain ⟨r, -, heq⟩ := Option.map_eq_some_iff.mp h
          cases heq
          simp
        · split at h
          · rename_i r hr
            cases h
            obtain ⟨n, hn, heq⟩ := List.exists_of_findSome?_eq_some hr
            have hnames : ∀ n ∈ names, n.2 ≠ .stray := by decide
            split at heq
            · cases heq
              exact hnames n hn
            · cases heq
          · obtain ⟨r, -, heq⟩ := Option.map_eq_some_iff.mp h
            cases heq
            simp

theorem isSpace_of_not_mem_blanks {c : Char} (hc : c ∉ blanks) : isSpace c = false := by
  rw [← Bool.not_eq_true, isSpace_iff_mem_blanks]
  exact hc

/-- The tokens of a run do not depend on what follows the run. -/
theorem tokens_append_of_isRun {cs rest : List Char} (hcs : IsRun cs) (hrest : EndsRuns rest) :
    tokens (cs ++ rest) = follow (tokens cs) (tokens rest) := by
  induction hn : cs.length using Nat.strongRecOn generalizing cs with
  | ind n ih =>
      cases cs with
      | nil => rfl
      | cons c cs =>
          have hc := hcs c (List.mem_cons_self ..)
          have hspace : isSpace c = false := by
            apply isSpace_of_not_mem_blanks
            simp only [isBare, Bool.and_eq_true, decide_eq_true_eq] at hc
            exact hc.1.1
          have hreads : ReadsRuns fun cs =>
              (readName cs).or ((Literal.read cs).map fun r => (Token.number r.1, r.2)) :=
            readsRuns_readName.or (Literal.readsRuns_read.map Token.number)
          obtain ⟨happend, hrun⟩ := hreads _ _ hcs hrest
          simp only [List.cons_append, ← readToken_of_isBare hc] at happend hrun
          rw [List.cons_append]
          cases hread : readToken (c :: cs) with
          | none =>
              rw [hread] at happend
              rw [tokens_of_readToken_eq_none hspace happend,
                tokens_of_readToken_eq_none hspace hread]
              rfl
          | some r =>
              obtain ⟨t, cs'⟩ := r
              rw [hread] at happend
              have hlength := length_readToken hread
              rw [tokens_of_readToken hspace happend, tokens_of_readToken hspace hread,
                follow_cons (ne_stray_of_readToken hread),
                ih cs'.length (hn ▸ hlength) (hrun _ hread) rfl]

theorem spanQuoted_cons {c : Char} (hquote : c ≠ '"') (hescape : c ≠ '\\') (cs : List Char) :
    spanQuoted (c :: cs) = (c :: (spanQuoted cs).1, (spanQuoted cs).2) := by
  rw [spanQuoted]
  all_goals simp_all

theorem readPieces_cons {c : Char} (hquote : c ≠ '"') (hescape : c ≠ '\\') (cs : List Char) :
    readPieces (c :: cs) =
      if c.toNat < 0x20 then none else (readPieces cs).map fun r => (.char c :: r.1, r.2) := by
  rw [readPieces]
  · simp only [hescape, or_false]
    split
    · rfl
    · cases readPieces cs <;> rfl
  all_goals simp_all

/-- Four hexadecimal digits close no string. -/
theorem spanQuoted_of_hexUnit? {a b c d : Char} {unit : Nat} (h : hexUnit? a b c d = some unit)
    (cs : List Char) :
    spanQuoted (a :: b :: c :: d :: cs) =
      (a :: b :: c :: d :: (spanQuoted cs).1, (spanQuoted cs).2) := by
  have hvalue : ∀ {x v}, hexValue? x = some v → x ≠ '"' ∧ x ≠ '\\' := by
    intro x v hx
    constructor
    · rintro rfl
      cases hx
    · rintro rfl
      cases hx
  simp only [hexUnit?, Option.bind_eq_bind, Option.bind_eq_some_iff] at h
  obtain ⟨_, ha, _, hb, _, hc, _, hd, -⟩ := h
  rw [spanQuoted_cons (hvalue ha).1 (hvalue ha).2, spanQuoted_cons (hvalue hb).1 (hvalue hb).2,
    spanQuoted_cons (hvalue hc).1 (hvalue hc).2, spanQuoted_cons (hvalue hd).1 (hvalue hd).2]

/-- An escape of a code unit needs four hexadecimal digits. -/
theorem readPieces_of_not_hexUnit? {cs : List Char}
    (h : ∀ a b c d rest, cs = a :: b :: c :: d :: rest → hexUnit? a b c d = none) :
    readPieces ('\\' :: 'u' :: cs) = none := by
  rw [readPieces.eq_def]
  split
  · rfl
  · rename_i heq
    cases heq
  · rename_i a b c d rest heq
    cases heq
    rw [h a b c d rest rfl]
    rfl
  · rename_i heq
    cases heq
    rfl
  · rename_i hescape heq
    cases heq
    exact absurd rfl (hescape _ _ rfl)

/-- The escape of a character is read as the character, if there is one for it. -/
theorem readPieces_escape {e : Char} {cs : List Char}
    (h : ∀ a b c d rest, e = 'u' → cs ≠ a :: b :: c :: d :: rest) :
    readPieces ('\\' :: e :: cs) =
      (escaped? e).bind fun c => (readPieces cs).map fun r => (.char c :: r.1, r.2) := by
  rw [readPieces]
  · cases escaped? e with
    | none => rfl
    | some c => cases readPieces cs <;> rfl
  · exact h

/-- A string is read from its characters up to the closing quote, and what follows does not
matter. -/
theorem readPieces_spanQuoted (cs : List Char) :
    readPieces (spanQuoted cs).1 = (readPieces cs).map (fun r => (r.1, [])) ∧
      ∀ r, readPieces cs = some r → r.2 = (spanQuoted cs).2 := by
  fun_induction readPieces cs with
  | case1 => simp [spanQuoted, readPieces]
  | case2 cs => simp [spanQuoted, readPieces]
  | case3 a b c d cs ih =>
      rw [spanQuoted]
      cases hunit : hexUnit? a b c d with
      | none =>
          refine ⟨readPieces_of_not_hexUnit? ?_, by simp⟩
          intro a' b' c' d' rest hstart
          have happend := spanQuoted_append (a :: b :: c :: d :: cs)
          simp only [hstart, List.cons_append, List.cons.injEq] at happend
          obtain ⟨rfl, rfl, rfl, rfl, -⟩ := happend
          exact hunit
      | some unit =>
          simp only [spanQuoted_of_hexUnit? hunit, readPieces, hunit, ih.1]
          cases hr : readPieces cs with
          | none => simp
          | some r => simp [ih.2 r hr]
  | case4 e cs hne ih =>
      rw [spanQuoted, readPieces_escape, ih.1]
      · cases escaped? e with
        | none => simp
        | some c =>
            cases hr : readPieces cs with
            | none => simp
            | some r => simp [ih.2 r hr]
      · rintro a b c d rest rfl hstart
        have happend := spanQuoted_append cs
        rw [hstart] at happend
        exact hne a b c d _ rfl happend.symm
  | case5 c cs h₁ h₂ h₃ hc =>
      by_cases hescape : c = '\\'
      · cases cs with
        | nil =>
            subst hescape
            exact ⟨rfl, by simp⟩
        | cons d cs => exact absurd rfl (h₃ d cs hescape)
      · rw [spanQuoted_cons h₁ hescape, readPieces_cons h₁ hescape,
          if_pos (hc.resolve_right hescape)]
        exact ⟨rfl, by simp⟩
  | case6 c cs h₁ h₂ h₃ hc ih =>
    rw [not_or] at hc
    rw [spanQuoted_cons h₁ hc.2, readPieces_cons h₁ hc.2, if_neg hc.1, ih.1]
    cases hr : readPieces cs with
    | none => simp
    | some r => simp [ih.2 r hr]

theorem tokens_quoted (cs : List Char) :
    tokens ('"' :: cs) = follow (tokens ('"' :: (spanQuoted cs).1)) (tokens (spanQuoted cs).2) := by
  have hread : ∀ cs, readToken ('"' :: cs) =
      (readPieces cs).map fun r => (.string ((joinPieces r.1).map String.ofList), r.2) :=
    fun _ => rfl
  obtain ⟨hpieces, hrest⟩ := readPieces_spanQuoted cs
  cases hr : readPieces cs with
  | none =>
      rw [hr] at hpieces
      rw [tokens_of_readToken_eq_none rfl (by rw [hread, hr]; rfl),
        tokens_of_readToken_eq_none rfl (by rw [hread, hpieces]; rfl)]
      rfl
  | some r =>
      rw [hr] at hpieces
      rw [tokens_of_readToken rfl (by rw [hread, hr]; rfl),
        tokens_of_readToken rfl (by rw [hread, hpieces]; rfl), hrest r hr]
      rfl

/-- The tokens of a text are those of its first lexeme, followed by those of the rest. -/
theorem tokens_spanLexeme {c : Char} (hc : c ∉ blanks) (cs : List Char) :
    tokens (c :: cs) = follow (tokens (spanLexeme c cs).1) (tokens (spanLexeme c cs).2) := by
  rw [spanLexeme]
  split
  · rename_i hquote
    rw [hquote]
    exact tokens_quoted cs
  · rename_i hquote
    split
    · rename_i hstructural
      have hpunctuation : structural.all (fun d => (punctuation? d).isSome) = true := by decide
      obtain ⟨t, ht⟩ :=
        Option.isSome_iff_exists.mp (List.all_eq_true.mp hpunctuation c hstructural)
      have hread : ∀ cs, readToken (c :: cs) = some (t, cs) := by
        intro cs
        simp only [readToken, ht]
      have hspace := isSpace_of_not_mem_blanks hc
      rw [tokens_of_readToken hspace (hread cs), tokens_of_readToken hspace (hread []),
        follow_cons (ne_stray_of_readToken (hread cs))]
      rfl
    · rename_i hstructural
      have hbare : isBare c = true := by
        simp [isBare, hc, hstructural, hquote]
      have hrun : IsRun (c :: cs.takeWhile isBare) :=
        List.forall_mem_cons.mpr ⟨hbare, List.all_eq_true.mp List.all_takeWhile⟩
      have hends : EndsRuns (cs.dropWhile isBare) := by
        intro d hd
        have hnot := List.head?_dropWhile_not isBare cs
        rw [hd] at hnot
        exact hnot
      rw [← tokens_append_of_isRun hrun hends, List.cons_append, List.takeWhile_append_dropWhile]

/-- The tokens of a text are those of its lexemes. -/
theorem tokens_eq_foldr_lexemes (cs : List Char) :
    tokens cs = (lexemes cs).foldr (fun l ts => follow (tokens l) ts) [] := by
  have hwithin : ∀ fuel cs, cs.length ≤ fuel →
      tokens cs = (lexemesWithin fuel cs).foldr (fun l ts => follow (tokens l) ts) [] := by
    intro fuel
    induction fuel with
    | zero =>
        intro cs hcs
        rw [List.length_eq_zero_iff.mp (Nat.le_zero.mp hcs)]
        rfl
    | succ fuel ih =>
        intro cs hcs
        cases cs with
        | nil => rfl
        | cons c cs =>
            rw [List.length_cons, Nat.succ_le_succ_iff] at hcs
            rw [lexemesWithin]
            split
            · rename_i hblank
              rw [tokens_cons_space (isSpace_iff_mem_blanks.mpr hblank), ih cs hcs]
            · rename_i hblank
              rw [List.foldr_cons, ← ih _ (Nat.le_trans (length_spanLexeme c cs) hcs),
                tokens_spanLexeme hblank]
  exact hwithin _ _ (Nat.le_refl _)

/-- Space between lexemes does not matter to a document. -/
theorem Document.ofText_eq_of_lexemes {s t : String}
    (h : lexemes s.toList = lexemes t.toList) : Document.ofText s = Document.ofText t := by
  have htokens : tokens s.toList = tokens t.toList := by
    rw [tokens_eq_foldr_lexemes, h, ← tokens_eq_foldr_lexemes]
  rw [Document.ofText, htokens, ← Document.ofText]

example : Document.ofText "[1,\"a b\"]" = Document.ofText " [ 1 ,\n\t\"a b\"]\r\n" :=
  Document.ofText_eq_of_lexemes (by cbv)

end ImportRepair.Json
