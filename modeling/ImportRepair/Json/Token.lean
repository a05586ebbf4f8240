import ImportRepair.Json.Number

/-!
# Tokens of JSON texts

The tokens of a text are its brackets, commas, colons, names, numbers and strings. A text that is
no JSON from some place on has the token `stray` there, and none after it.

## Implementation notes

A string token whose escapes do not pair up into characters is a token all the same: only a reader
that needs the characters has to refuse it.
-/

namespace ImportRepair.Json

/-- A token; a string is `none` when its escapes are no characters. -/
inductive Token
  | openBracket
  | closeBracket
  | openBrace
  | closeBrace
  | comma
  | colon
  | null
  | boolean (b : Bool)
  | number (l : Literal)
  | string (s : Option String)
  /-- The place where the text stops being JSON. -/
  | stray
  deriving DecidableEq, Repr

/-- The space characters between tokens. -/
def isSpace (c : Char) : Bool := c == ' ' || c == '\t' || c == '\n' || c == '\r'

/-- A piece of a string: a character, or a code unit written as an escape. -/
inductive StringPiece
  | char (c : Char)
  | unit (n : Nat)
  deriving DecidableEq, Repr

/-- The value of a hexadecimal digit of either case. -/
def hexValue? (c : Char) : Option Nat :=
  if c.isDigit then some (c.toNat - 48)
  else if 'a' ≤ c ∧ c ≤ 'f' then some (c.toNat - 87)
  else if 'A' ≤ c ∧ c ≤ 'F' then some (c.toNat - 55)
  else none

/-- The code unit of four hexadecimal digits. -/
def hexUnit? (a b c d : Char) : Option Nat := do
  let a ← hexValue? a
  let b ← hexValue? b
  let c ← hexValue? c
  let d ← hexValue? d
  return ((a * 16 + b) * 16 + c) * 16 + d

/-- The character that a one-letter escape stands for. -/
def escaped? (c : Char) : Option Char :=
  match c with
  | '"' => some '"'
  | '\\' => some '\\'
  | '/' => some '/'
  | 'b' => some '\x08'
  | 'f' => some '\x0c'
  | 'n' => some '\n'
  | 'r' => some '\r'
  | 't' => some '\t'
  | _ => none

/-- The pieces of a string up to its closing quote, and the text after the quote. -/
def readPieces : List Char → Option (List StringPiece × List Char)
  | [] => none
  | '"' :: cs => some ([], cs)
  | '\\' :: 'u' :: a :: b :: c :: d :: cs => do
    let unit ← hexUnit? a b c d
    let (ps, rest) ← readPieces cs
    return (.unit unit :: ps, rest)
  | '\\' :: e :: cs => do
    let c ← escaped? e
    let (ps, rest) ← readPieces cs
    return (.char c :: ps, rest)
  | c :: cs =>
    if c.toNat < 0x20 ∨ c = '\\' then none
    else do
      let (ps, rest) ← readPieces cs
      return (.char c :: ps, rest)

/-- The characters of the pieces; a first half of a pair needs its second half after it. -/
def joinPieces : List StringPiece → Option (List Char)
  | [] => some []
  | .char c :: ps => (joinPieces ps).map (c :: ·)
  | .unit n :: ps =>
    if 0xD800 ≤ n ∧ n < 0xDC00 then
      match ps with
      | .unit m :: ps =>
        if 0xDC00 ≤ m ∧ m < 0xE000 then
          (joinPieces ps).map (Char.ofNat (0x10000 + (n - 0xD800) * 0x400 + (m - 0xDC00)) :: ·)
        else none
      | _ => none
    else if 0xDC00 ≤ n ∧ n < 0xE000 then none
    else (joinPieces ps).map (Char.ofNat n :: ·)

/-- The token that is a single character. -/
def punctuation? (c : Char) : Option Token :=
  match c with
  | '[' => some .openBracket
  | ']' => some .closeBracket
  | '{' => some .openBrace
  | '}' => some .closeBrace
  | ',' => some .comma
  | ':' => some .colon
  | _ => none

/-- The tokens that are names. -/
def names : List (List Char × Token) :=
  [("null".toList, .null), ("true".toList, .boolean true), ("false".toList, .boolean false)]

/-- The name at the front of a text, and what follows it. -/
def readName (cs : List Char) : Option (Token × List Char) :=
  names.findSome? fun n =>
    if n.1.isPrefixOf cs then some (n.2, cs.drop n.1.length) else none

/-- The token at the front of a text, and what follows it. -/
def readToken : List Char → Option (Token × List Char)
  | [] => none
  | c :: cs =>
    match punctuation? c with
    | some t => some (t, cs)
    | none =>
      if c = '"' then
        (readPieces cs).map fun r => (.string ((joinPieces r.1).map String.ofList), r.2)
      else match readName (c :: cs) with
        | some r => some r
        | none => (Literal.read (c :: cs)).map fun r => (.number r.1, r.2)

/-- The tokens of a text, of which there are no more than `fuel`. -/
def tokensWithin : Nat → List Char → List Token
  | 0, _ => []
  | _, [] => []
  | fuel + 1, c :: cs =>
    if isSpace c then tokensWithin fuel cs
    else match readToken (c :: cs) with
      | some (t, rest) => t :: tokensWithin fuel rest
      | none => [.stray]

/-- The tokens of a text. -/
def tokens (cs : List Char) : List Token := tokensWithin cs.length cs

theorem length_readPieces {cs rest : List Char} {ps : List StringPiece}
    (h : readPieces cs = some (ps, rest)) : rest.length < cs.length := by
  fun_induction readPieces cs generalizing ps rest with
  | case1 => cases h
  | case2 cs =>
    cases h
    simp
  | case3 a b c d cs ih =>
    simp only [Option.bind_eq_bind, Option.bind_eq_some_iff, Option.pure_def, Option.some.injEq,
      Prod.mk.injEq] at h
    obtain ⟨unit, -, ⟨ps', rest'⟩, hr, -, rfl⟩ := h
    have := ih hr
    simp only [List.length_cons]
    omega
  | case4 e cs hne ih =>
    simp only [Option.bind_eq_bind, Option.bind_eq_some_iff, Option.pure_def, Option.some.injEq,
      Prod.mk.injEq] at h
    obtain ⟨c, -, ⟨ps', rest'⟩, hr, -, rfl⟩ := h
    have := ih hr
    simp only [List.length_cons]
    omega
  | case5 c cs h₁ h₂ h₃ hc => cases h
  | case6 c cs h₁ h₂ h₃ hc ih =>
    simp only [Option.bind_eq_bind, Option.bind_eq_some_iff, Option.pure_def, Option.some.injEq,
      Prod.mk.injEq] at h
    obtain ⟨⟨ps', rest'⟩, hr, -, rfl⟩ := h
    have := ih hr
    simp only [List.length_cons]
    omega

theorem length_readName {cs rest : List Char} {t : Token} (h : readName cs = some (t, rest)) :
    rest.length < cs.length := by
  obtain ⟨n, hn, hr⟩ := List.exists_of_findSome?_eq_some h
  split at hr
  · rename_i hp
    cases hr
    have hle := (List.isPrefixOf_iff_prefix.1 hp).length_le
    have hpos : 0 < n.1.length := by
      simp only [names, List.mem_cons, List.not_mem_nil, or_false] at hn
      rcases hn with rfl | rfl | rfl <;> decide
    simp only [List.length_drop]
    omega
  · cases hr

/-- A token takes at least one character off the text. -/
theorem length_readToken {cs rest : List Char} {t : Token} (h : readToken cs = some (t, rest)) :
    rest.length < cs.length := by
  cases cs with
  | nil => cases h
  | cons c cs =>
    simp only [readToken] at h
    split at h
    · cases h
      simp
    · split at h
      · obtain ⟨⟨ps, r⟩, hr, heq⟩ := Option.map_eq_some_iff.1 h
        cases heq
        have := length_readPieces hr
        simp only [List.length_cons]
        omega
      · split at h
        · rename_i r hr
          cases h
          exact length_readName hr
        · obtain ⟨⟨l, r⟩, hr, heq⟩ := Option.map_eq_some_iff.1 h
          cases heq
          exact Literal.length_read hr

/-- More fuel than there are characters changes nothing. -/
theorem tokensWithin_eq {fuel : Nat} {cs : List Char} (h : cs.length ≤ fuel) :
    tokensWithin fuel cs = tokens cs := by
  suffices key : ∀ n m (cs : List Char), cs.length ≤ n → cs.length ≤ m →
      tokensWithin n cs = tokensWithin m cs from key _ _ _ h (Nat.le_refl _)
  intro n
  induction n with
  | zero =>
    intro m cs hn hm
    have : cs = [] := List.length_eq_zero_iff.1 (by omega)
    subst this
    cases m <;> rfl
  | succ n ih =>
    intro m cs hn hm
    cases cs with
    | nil => cases m <;> rfl
    | cons c cs =>
      cases m with
      | zero => simp at hm
      | succ m =>
        simp only [List.length_cons, Nat.add_le_add_iff_right] at hn hm
        simp only [tokensWithin]
        split
        · exact ih m cs hn hm
        · split
          · rename_i t rest hr
            have := length_readToken hr
            simp only [List.length_cons] at this
            rw [ih m rest (by omega) (by omega)]
          · rfl

/-- A text that begins with a token has the tokens of the rest after it. -/
theorem tokens_of_readToken {c : Char} {cs rest : List Char} {t : Token}
    (hc : isSpace c = false) (h : readToken (c :: cs) = some (t, rest)) :
    tokens (c :: cs) = t :: tokens rest := by
  have hlt := length_readToken h
  simp only [List.length_cons] at hlt
  simp only [tokens, List.length_cons, tokensWithin, hc, h]
  rw [tokensWithin_eq (show rest.length ≤ cs.length by omega)]
  rfl

theorem tokens_cons_space {c : Char} (hc : isSpace c = true) (cs : List Char) :
    tokens (c :: cs) = tokens cs := by
  simp [tokens, tokensWithin, hc]

end ImportRepair.Json
