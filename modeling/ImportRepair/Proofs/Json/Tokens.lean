import ImportRepair.Json.Tree

/-!
# Tokens of written values

Breaking the text of a value into tokens gives the tokens that the value is made of
(`tokens_prettyAt`), whatever follows the text, as long as a number does not go on there. This rests
on strings and numbers being read back as they were written, one piece for each character.

## Implementation notes

Floating point numbers are left out. They are read with an error in the last place, so their texts
do not stand for them.
-/

namespace ImportRepair.Json

/-- Holds for the texts by which a number before them would go on. -/
def continuesNumber : List Char → Bool
  | [] => false
  | c :: _ => c.isDigit || c == '.' || c == 'e' || c == 'E'

/-- The decimal digits of a number. -/
def digits (n : Nat) : List Nat := (Nat.toDigits 10 n).map fun c => c.toNat - 48

theorem digitsValue_digits (n : Nat) : digitsValue (digits n) = n := by
  have hzero : '0'.toNat = 48 := rfl
  have h : Nat.ofDigitChars 10 (Nat.toDigits 10 n) 0 = n := Nat.ofDigitChars_ten_toDigits
  simpa only [digitsValue, digits, List.foldl_map, Nat.ofDigitChars, Nat.mul_comm, hzero] using h

theorem le_foldl_digits (ds : List Nat) (n : Nat) : n ≤ ds.foldl (fun n d => n * 10 + d) n := by
  induction ds generalizing n with
  | nil => exact Nat.le_refl n
  | cons d ds ih =>
      calc
        n ≤ n * 10 + d := by omega
        _ ≤ ds.foldl (fun n d => n * 10 + d) (n * 10 + d) := ih _

/-- No digit is left over if the number made from all of them fits 64 bits. -/
theorem absorb_eq_of_lt {ds : List Nat} {n : Nat}
    (h : ds.foldl (fun n d => n * 10 + d) n < UInt64.size) :
    absorb n ds = (ds.foldl (fun n d => n * 10 + d) n, 0) := by
  induction ds generalizing n with
  | nil => rfl
  | cons d ds ih =>
      have hd : n * 10 + d < UInt64.size := Nat.lt_of_le_of_lt (le_foldl_digits ds _) h
      rw [absorb, if_pos hd, ih h]
      rfl

theorem spanDigits_append {cs rest : List Char} (hcs : ∀ c ∈ cs, c.isDigit = true)
    (hrest : continuesNumber rest = false) :
    spanDigits (cs ++ rest) = (cs.map fun c => c.toNat - 48, rest) := by
  induction cs with
  | nil =>
      cases rest with
      | nil => rfl
      | cons c rest =>
          have hc : c.isDigit = false := by
            simp only [continuesNumber, Bool.or_eq_false_iff] at hrest
            exact hrest.1.1.1
          simp [spanDigits, hc]
  | cons c cs ih =>
      have hc := hcs c (List.mem_cons_self ..)
      simp [spanDigits, hc, ih fun d hd => hcs d (List.mem_cons_of_mem _ hd)]

theorem exists_cons_toDigits (n : Nat) :
    ∃ c cs, Nat.toDigits 10 n = c :: cs ∧ c.isDigit = true := by
  obtain ⟨c, cs, hdigits⟩ := List.exists_cons_of_ne_nil (Nat.toDigits_ne_nil (n := n) (b := 10))
  refine ⟨c, cs, hdigits, ?_⟩
  apply Nat.isDigit_of_mem_toDigits (b := 10) (n := n) (by decide) (by decide)
  rw [hdigits]
  exact List.mem_cons_self ..

/-- The first digit of a positive number is not zero. -/
theorem head?_toDigits_ne {n : Nat} (hn : 0 < n) : (Nat.toDigits 10 n).head? ≠ some '0' := by
  induction n using Nat.strongRecOn with
  | ind n ih =>
      rw [Nat.toDigits_eq_if (by decide)]
      split
      · rename_i hlt
        have hdigit : ∀ d < 10, 0 < d → Nat.digitChar d ≠ '0' := by decide
        simpa using hdigit n hlt hn
      · rename_i hge
        have hhead := ih (n / 10) (by omega) (by omega)
        obtain ⟨c, cs, hfront, -⟩ := exists_cons_toDigits (n / 10)
        rw [hfront] at hhead ⊢
        exact hhead

theorem digits_ne_nil (n : Nat) : digits n ≠ [] := by
  simp [digits, Nat.toDigits_ne_nil]

/-- The digits of a number begin with a zero only if there are no others. -/
theorem digits_ne_zero_cons_cons (n d : Nat) (ds : List Nat) : digits n ≠ 0 :: d :: ds := by
  rcases Nat.eq_zero_or_pos n with rfl | hn
  · simp [digits]
  · intro h
    have hhead := head?_toDigits_ne hn
    obtain ⟨c, cs, hdigits, hc⟩ := exists_cons_toDigits n
    have hvalue : c.toNat - 48 = 0 := by
      simp only [digits, hdigits, List.map_cons, List.cons.injEq] at h
      exact h.1
    have hzero : c = '0' := by
      have hle : 48 ≤ c.toNat := (Char.isDigit_iff_toNat.mp hc).1
      apply Char.toNat_inj.mp
      show c.toNat = 48
      omega
    rw [hdigits, hzero] at hhead
    exact hhead rfl

namespace Literal

/-- The literal that an integer is written as. -/
def ofInt (n : Int) : Literal := { negative := decide (n < 0), whole := digits n.natAbs }

/-- An integer of 64 bits is read as the integer. -/
theorem number_ofInt {n : Int} (hlow : -(twoPow 63 : Int) ≤ n) (hhigh : n < twoPow 64) :
    (ofInt n).number = .integer n := by
  have hvalue : digitsValue (digits n.natAbs) = n.natAbs := digitsValue_digits _
  have hfits : digitsValue (digits n.natAbs) < UInt64.size := by
    have hsize : twoPow 64 = UInt64.size := rfl
    have hdouble : twoPow 64 = 2 * twoPow 63 := rfl
    rw [hvalue]
    omega
  have habsorb : absorb 0 (digits n.natAbs) = (n.natAbs, 0) := by
    rw [absorb_eq_of_lt hfits]
    exact congrArg (fun m => (m, 0)) hvalue
  have hnothing : absorb n.natAbs [] = (n.natAbs, 0) := rfl
  simp only [number, ofInt, habsorb, hnothing, and_self, if_true]
  split
  · rename_i hn
    have hn : ¬n < 0 := by simpa using hn
    congr 1
    omega
  · rename_i hn
    have hn : n < 0 := by simpa using hn
    rw [if_neg (by omega)]
    congr 1
    omega

theorem readWhole_digits (n : Nat) {rest : List Char} (hrest : continuesNumber rest = false) :
    readWhole (Nat.toDigits 10 n ++ rest) = some (digits n, rest) := by
  have hspan : spanDigits (Nat.toDigits 10 n ++ rest) = (digits n, rest) :=
    spanDigits_append (fun c => Nat.isDigit_of_mem_toDigits (by decide) (by decide)) hrest
  rw [readWhole, hspan]
  split
  · rename_i heq
    exact absurd (congrArg Prod.fst heq) (digits_ne_nil n)
  · rename_i heq
    exact absurd (congrArg Prod.fst heq) (digits_ne_zero_cons_cons n _ _)
  · rename_i heq
    cases heq
    rfl

theorem readFraction_of_not_continues {rest : List Char} (h : continuesNumber rest = false) :
    readFraction rest = some ([], rest) := by
  cases rest with
  | nil => rfl
  | cons c rest =>
      have hc : c ≠ '.' := by
        rintro rfl
        cases h
      rw [readFraction]
      simpa using hc

theorem readExponent_of_not_continues {rest : List Char} (h : continuesNumber rest = false) :
    readExponent rest = some (none, rest) := by
  cases rest with
  | nil => rfl
  | cons c rest =>
      have hc : ¬(c = 'e' ∨ c = 'E') := by
        rintro (rfl | rfl)
        · cases h
        · cases h
      show (if c = 'e' ∨ c = 'E' then _ else _) = _
      exact if_neg hc

theorem readUnsigned_toDigits (negative : Bool) (n : Nat) {rest : List Char}
    (hrest : continuesNumber rest = false) :
    readUnsigned negative (Nat.toDigits 10 n ++ rest) =
      some (⟨negative, digits n, [], none⟩, rest) := by
  simp only [readUnsigned, readWhole_digits n hrest, readFraction_of_not_continues hrest,
    readExponent_of_not_continues hrest, Option.bind_eq_bind, Option.bind_some, Option.pure_def]

/-- An integer is read as it was written. -/
theorem read_toString (n : Int) {rest : List Char} (hrest : continuesNumber rest = false) :
    read ((toString n).toList ++ rest) = some (ofInt n, rest) := by
  rw [Int.toString_eq_repr]
  cases n with
  | ofNat m =>
      have hread : read (Nat.toDigits 10 m ++ rest) =
          readUnsigned false (Nat.toDigits 10 m ++ rest) := by
        obtain ⟨c, cs, hdigits, hc⟩ := exists_cons_toDigits m
        have hsign : c ≠ '-' := by
          rintro rfl
          cases hc
        simp [hdigits, read, hsign]
      have htext : (Int.ofNat m).repr.toList = Nat.toDigits 10 m := Nat.toList_repr
      rw [htext, hread, readUnsigned_toDigits false m hrest]
      simp [ofInt]
  | negSucc m =>
      have htext : (Int.negSucc m).repr.toList = '-' :: Nat.toDigits 10 (m + 1) := by
        simp [Int.repr]
      rw [htext, List.cons_append, read, readUnsigned_toDigits true (m + 1) hrest]
      simp [ofInt]

end Literal

theorem hexUnit?_control {n : Nat} (hn : n < 0x20) :
    hexUnit? '0' '0' (hexDigit (n / 16)) (hexDigit (n % 16)) = some n := by
  have h : ∀ m < 0x20, hexUnit? '0' '0' (hexDigit (m / 16)) (hexDigit (m % 16)) = some m := by
    decide
  exact h n hn

/-- A control character that has no letter of its own is read from its code. -/
theorem joinPieces_control {c : Char} (hc : c.toNat < 0x20) (ps : List StringPiece) :
    joinPieces (.unit c.toNat :: ps) = (joinPieces ps).map (c :: ·) := by
  have hhigh : ¬(0xD800 ≤ c.toNat ∧ c.toNat < 0xDC00) := by omega
  have hlow : ¬(0xDC00 ≤ c.toNat ∧ c.toNat < 0xE000) := by omega
  rw [joinPieces.eq_def]
  dsimp only
  rw [if_neg hhigh, if_neg hlow, Char.ofNat_toNat]

/-- A character is read back as one piece, which stands for it. -/
theorem exists_piece (c : Char) : ∃ p,
    (∀ cs, readPieces (escape c ++ cs) = (readPieces cs).bind fun r => some (p :: r.1, r.2)) ∧
      ∀ ps, joinPieces (p :: ps) = (joinPieces ps).map (c :: ·) := by
  by_cases hletter : c ∈ ['"', '\\', '\x08', '\x0c', '\n', '\r', '\t']
  · refine ⟨.char c, ?_, fun ps => rfl⟩
    intro cs
    simp only [List.mem_cons, List.not_mem_nil, or_false] at hletter
    rcases hletter with rfl | rfl | rfl | rfl | rfl | rfl | rfl
    all_goals simp [escape, readPieces, escaped?]
  · simp only [List.mem_cons, List.not_mem_nil, or_false, not_or] at hletter
    by_cases hcontrol : c.toNat < 0x20
    · refine ⟨.unit c.toNat, ?_, joinPieces_control hcontrol⟩
      intro cs
      have hunit := hexUnit?_control hcontrol
      simp [escape, hletter, hcontrol, readPieces, hunit]
    · refine ⟨.char c, ?_, fun ps => rfl⟩
      intro cs
      simp [escape, hletter, hcontrol, readPieces]

/-- A string is read back as it was written. -/
theorem exists_pieces (s : List Char) : ∃ ps,
    (∀ rest, readPieces (s.flatMap escape ++ '"' :: rest) = some (ps, rest)) ∧
      joinPieces ps = some s := by
  induction s with
  | nil => exact ⟨[], fun rest => rfl, rfl⟩
  | cons c s ih =>
      obtain ⟨p, hread, hjoin⟩ := exists_piece c
      obtain ⟨ps, hreads, hjoins⟩ := ih
      refine ⟨p :: ps, ?_, ?_⟩
      · intro rest
        rw [List.flatMap_cons, List.append_assoc, hread, hreads, Option.bind_some]
      · rw [hjoin, hjoins, Option.map_some]

theorem readToken_quote (s : String) (rest : List Char) :
    readToken (quote s ++ rest) = some (.string (some s), rest) := by
  obtain ⟨ps, hread, hjoin⟩ := exists_pieces s.toList
  have hpieces := hread rest
  rw [quote, List.cons_append, List.append_assoc, readToken]
  simp [punctuation?, hpieces, hjoin]

theorem tokens_quote (s : String) (rest : List Char) :
    tokens (quote s ++ rest) = .string (some s) :: tokens rest :=
  tokens_of_readToken rfl (readToken_quote s rest)

theorem tokens_punctuation {c : Char} {t : Token} (hc : isSpace c = false)
    (h : punctuation? c = some t) (rest : List Char) : tokens (c :: rest) = t :: tokens rest := by
  apply tokens_of_readToken hc
  simp only [readToken, h]

theorem tokens_null (rest : List Char) : tokens ("null".toList ++ rest) = .null :: tokens rest :=
  tokens_of_readToken rfl rfl

theorem tokens_boolean (b : Bool) (rest : List Char) :
    tokens ((if b then "true" else "false").toList ++ rest) = .boolean b :: tokens rest := by
  cases b
  · exact tokens_of_readToken rfl rfl
  · exact tokens_of_readToken rfl rfl

/-- Holds for the characters with which an integer begins. -/
def beginsInteger (c : Char) : Bool := c.isDigit || c == '-'

theorem ne_of_beginsInteger {c d : Char} (hc : beginsInteger c = true)
    (hd : beginsInteger d = false) : c ≠ d := by
  rintro rfl
  rw [hc] at hd
  cases hd

theorem exists_cons_toString (n : Int) :
    ∃ c cs, (toString n).toList = c :: cs ∧ beginsInteger c = true := by
  rw [Int.toString_eq_repr]
  cases n with
  | ofNat m =>
      obtain ⟨c, cs, hdigits, hc⟩ := exists_cons_toDigits m
      exact ⟨c, cs, Nat.toList_repr.trans hdigits, by simp [beginsInteger, hc]⟩
  | negSucc m => exact ⟨'-', Nat.toDigits 10 (m + 1), by simp [Int.repr], rfl⟩

theorem isSpace_of_beginsInteger {c : Char} (hc : beginsInteger c = true) : isSpace c = false := by
  have hne := fun d => ne_of_beginsInteger (d := d) hc
  simp [isSpace, hne ' ' rfl, hne '\t' rfl, hne '\n' rfl, hne '\r' rfl]

/-- A token that begins like an integer is a number. -/
theorem readToken_of_beginsInteger {c : Char} (hc : beginsInteger c = true) (cs : List Char) :
    readToken (c :: cs) = (Literal.read (c :: cs)).map fun r => (.number r.1, r.2) := by
  have hne := fun d => ne_of_beginsInteger (d := d) hc
  have hpunctuation : punctuation? c = none := by
    simp [punctuation?, hne '[' rfl, hne ']' rfl, hne '{' rfl, hne '}' rfl, hne ',' rfl,
      hne ':' rfl]
  have hname : readName (c :: cs) = none := by
    simp [readName, names, (hne 'n' rfl).symm, (hne 't' rfl).symm, (hne 'f' rfl).symm]
  simp only [readToken, hpunctuation, if_neg (hne '"' rfl), hname]

theorem tokens_integer (n : Int) {rest : List Char} (hrest : continuesNumber rest = false) :
    tokens ((toString n).toList ++ rest) = .number (.ofInt n) :: tokens rest := by
  have hread := Literal.read_toString n hrest
  obtain ⟨c, cs, htext, hc⟩ := exists_cons_toString n
  rw [htext, List.cons_append] at hread ⊢
  apply tokens_of_readToken (isSpace_of_beginsInteger hc)
  rw [readToken_of_beginsInteger hc, hread, Option.map_some]

theorem tokens_newLine (depth : Nat) (rest : List Char) :
    tokens (newLine depth ++ rest) = tokens rest := by
  have hblanks : ∀ n, tokens (List.replicate n ' ' ++ rest) = tokens rest := by
    intro n
    induction n with
    | zero => rfl
    | succ n ih => rw [List.replicate_succ, List.cons_append, tokens_cons_space rfl, ih]
  rw [newLine, List.cons_append, tokens_cons_space rfl, hblanks]

/-- Values that can be told from their texts: integers fit 64 bits, and there are no floating point
numbers. -/
inductive Exact : Json → Prop
  | null : Exact .null
  | boolean (b : Bool) : Exact (.boolean b)
  | integer {n : Int} (hlow : -(twoPow 63 : Int) ≤ n) (hhigh : n < twoPow 64) : Exact (.integer n)
  | string (s : String) : Exact (.string s)
  | array {items : List Json} (h : ∀ v ∈ items, Exact v) : Exact (.array items)
  | object {members : List (String × Json)} (h : ∀ m ∈ members, Exact m.2) : Exact (.object members)

theorem Exact.noMembers : Exact (.object []) := .object fun _ hm => nomatch hm

theorem Exact.member {k : String} {v : Json} {ms : List (String × Json)} (hv : v.Exact)
    (hms : Exact (.object ms)) : Exact (.object ((k, v) :: ms)) := by
  cases hms with
  | object h => exact .object (List.forall_mem_cons.mpr ⟨hv, h⟩)

/-- An array of exact values, each written for an element of a list. -/
theorem exact_map {α : Type} {toJson : α → Json} {as : List α} (h : ∀ a ∈ as, (toJson a).Exact) :
    Exact (.array (as.map toJson)) := by
  apply Exact.array
  intro v hv
  obtain ⟨a, ha, rfl⟩ := List.mem_map.mp hv
  exact h a ha

theorem exact_strings (ss : List String) : Exact (.strings ss) := exact_map fun s _ => .string s

theorem exact_uint32 (n : UInt32) : Exact (.integer n.toNat) := by
  have hsize : n.toNat < UInt32.size := n.toNat_lt
  have hfits : UInt32.size ≤ twoPow 64 := by decide
  exact .integer (by omega) (by omega)

mutual

/-- The tokens that a value is made of. A floating point number has none that stands for it. -/
def toTokens : Json → List Token
  | .null => [.null]
  | .boolean b => [.boolean b]
  | .integer n => [.number (.ofInt n)]
  | .float _ _ => [.stray]
  | .string s => [.string (some s)]
  | .array items => .openBracket :: (itemTokens items ++ [.closeBracket])
  | .object members => .openBrace :: (memberTokens members ++ [.closeBrace])

/-- The tokens of values with commas between them. -/
def itemTokens : List Json → List Token
  | [] => []
  | [v] => v.toTokens
  | v :: w :: vs => v.toTokens ++ .comma :: itemTokens (w :: vs)

/-- The tokens of members with commas between them. -/
def memberTokens : List (String × Json) → List Token
  | [] => []
  | [(k, v)] => .string (some k) :: .colon :: v.toTokens
  | (k, v) :: m :: ms =>
    .string (some k) :: .colon :: (v.toTokens ++ .comma :: memberTokens (m :: ms))

end

/-- The text of a value has the tokens of the value, at any depth and whatever follows. -/
def Spelled (v : Json) : Prop :=
  ∀ depth rest, continuesNumber rest = false →
    tokens (v.prettyAt depth ++ rest) = v.toTokens ++ tokens rest

theorem tokens_prettyItems {items : List Json} (h : ∀ v ∈ items, v.Spelled) (depth : Nat)
    {rest : List Char} (hrest : continuesNumber rest = false) :
    tokens (prettyItems depth items ++ rest) = itemTokens items ++ tokens rest := by
  induction items with
  | nil => rfl
  | cons v vs ih =>
      have hv := h v (List.mem_cons_self ..)
      cases vs with
      | nil => rw [prettyItems, List.append_assoc, tokens_newLine, hv depth rest hrest, itemTokens]
      | cons w vs =>
          have hvs := ih fun x hx => h x (List.mem_cons_of_mem _ hx)
          calc
            tokens (prettyItems depth (v :: w :: vs) ++ rest)
                = tokens (v.prettyAt depth ++ ',' :: (prettyItems depth (w :: vs) ++ rest)) := by
              simp only [prettyItems, List.append_assoc, List.cons_append, tokens_newLine]
            _ = v.toTokens ++ .comma :: tokens (prettyItems depth (w :: vs) ++ rest) := by
              rw [hv depth _ rfl, tokens_punctuation rfl rfl]
            _ = itemTokens (v :: w :: vs) ++ tokens rest := by
              rw [hvs, itemTokens, List.append_assoc, List.cons_append]

theorem tokens_prettyMembers {members : List (String × Json)} (h : ∀ m ∈ members, m.2.Spelled)
    (depth : Nat) {rest : List Char} (hrest : continuesNumber rest = false) :
    tokens (prettyMembers depth members ++ rest) = memberTokens members ++ tokens rest := by
  induction members with
  | nil => rfl
  | cons m ms ih =>
      obtain ⟨k, v⟩ := m
      have hv : v.Spelled := h (k, v) (List.mem_cons_self ..)
      have hkey : ∀ cs, tokens (newLine depth ++ (quote k ++ ':' :: ' ' :: cs)) =
          .string (some k) :: .colon :: tokens cs := by
        intro cs
        rw [tokens_newLine, tokens_quote, tokens_punctuation rfl rfl, tokens_cons_space rfl]
      cases ms with
      | nil =>
          simp only [prettyMembers, List.append_assoc, List.cons_append, hkey, hv depth rest hrest,
            memberTokens]
      | cons m ms =>
          have hms := ih fun x hx => h x (List.mem_cons_of_mem _ hx)
          calc
            tokens (prettyMembers depth ((k, v) :: m :: ms) ++ rest)
                = .string (some k) :: .colon :: tokens
                    (v.prettyAt depth ++ ',' :: (prettyMembers depth (m :: ms) ++ rest)) := by
              simp only [prettyMembers, List.append_assoc, List.cons_append, hkey]
            _ = .string (some k) :: .colon ::
                  (v.toTokens ++ .comma :: tokens (prettyMembers depth (m :: ms) ++ rest)) := by
              rw [hv depth _ rfl, tokens_punctuation rfl rfl]
            _ = memberTokens ((k, v) :: m :: ms) ++ tokens rest := by
              simp only [hms, memberTokens, List.append_assoc, List.cons_append]

/-- An exact value is spelled by its text. -/
theorem Exact.spelled {v : Json} (h : v.Exact) : v.Spelled := by
  induction h with
  | null => exact fun depth rest _ => tokens_null rest
  | boolean b => exact fun depth rest _ => tokens_boolean b rest
  | integer _ _ => exact fun depth rest hrest => tokens_integer _ hrest
  | string s => exact fun depth rest _ => tokens_quote s rest
  | @array items _ ih =>
      intro depth rest hrest
      cases items with
      | nil =>
          show tokens ('[' :: ']' :: rest) = _
          rw [tokens_punctuation rfl rfl, tokens_punctuation rfl rfl]
          rfl
      | cons v vs =>
          calc
            tokens ((Json.array (v :: vs)).prettyAt depth ++ rest)
                = .openBracket :: tokens
                    (prettyItems (depth + 1) (v :: vs) ++ (newLine depth ++ ']' :: rest)) := by
              simp only [prettyAt, List.cons_append, List.append_assoc, List.nil_append]
              rw [tokens_punctuation rfl rfl]
            _ = .openBracket :: (itemTokens (v :: vs) ++ .closeBracket :: tokens rest) := by
              rw [tokens_prettyItems ih _ rfl, tokens_newLine, tokens_punctuation rfl rfl]
            _ = (Json.array (v :: vs)).toTokens ++ tokens rest := by
              simp only [toTokens, List.cons_append, List.append_assoc, List.nil_append]
  | @object members _ ih =>
      intro depth rest hrest
      cases members with
      | nil =>
          show tokens ('{' :: '}' :: rest) = _
          rw [tokens_punctuation rfl rfl, tokens_punctuation rfl rfl]
          rfl
      | cons m ms =>
          calc
            tokens ((Json.object (m :: ms)).prettyAt depth ++ rest)
                = .openBrace :: tokens
                    (prettyMembers (depth + 1) (m :: ms) ++ (newLine depth ++ '}' :: rest)) := by
              simp only [prettyAt, List.cons_append, List.append_assoc, List.nil_append]
              rw [tokens_punctuation rfl rfl]
            _ = .openBrace :: (memberTokens (m :: ms) ++ .closeBrace :: tokens rest) := by
              rw [tokens_prettyMembers ih _ rfl, tokens_newLine, tokens_punctuation rfl rfl]
            _ = (Json.object (m :: ms)).toTokens ++ tokens rest := by
              simp only [toTokens, List.cons_append, List.append_assoc, List.nil_append]

end ImportRepair.Json
