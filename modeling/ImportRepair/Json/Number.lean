import ImportRepair.Number.Shortest

/-!
# Numbers of JSON texts

A number is an integer when it is written without fraction and exponent and fits 64 bits; any other
number is a floating point number, and so is `-0`.

## Implementation notes

A floating point number is made from its first digits as long as they fit 64 bits. Whole digits
beyond count as factors of ten and further decimals do not count. The digits so taken are rounded,
and then multiplied or divided by a rounded power of ten; the result may differ from the nearest
number in its last place.
-/

namespace ImportRepair.Json

/-- A number as it is written: its digits, and the sign and the digits of its exponent. -/
structure Literal where
  negative : Bool
  whole : List Nat
  fraction : List Nat := []
  exponent : Option (Bool × List Nat) := none
  deriving DecidableEq, Repr

/-- The number that a literal stands for. -/
inductive Number
  | integer (n : Int)
  | float (negative : Bool) (x : Binary64)
  /-- A literal beyond the greatest floating point number. -/
  | tooLarge
  deriving DecidableEq, Repr

/-- The digits at the front of a text, and what follows them. -/
def spanDigits : List Char → List Nat × List Char
  | [] => ([], [])
  | c :: cs =>
    if c.isDigit then
      let (ds, rest) := spanDigits cs
      ((c.toNat - 48) :: ds, rest)
    else ([], c :: cs)

theorem length_spanDigits (cs : List Char) :
    (spanDigits cs).1.length + (spanDigits cs).2.length = cs.length := by
  induction cs with
  | nil => rfl
  | cons c cs ih =>
    simp only [spanDigits]
    split
    · simp only [List.length_cons]
      omega
    · simp

namespace Literal

/-- The digits before the point: a single zero, or digits that do not begin with one. -/
def readWhole (cs : List Char) : Option (List Nat × List Char) :=
  match spanDigits cs with
  | ([], _) => none
  | (0 :: _ :: _, _) => none
  | (ds, rest) => some (ds, rest)

/-- The digits after the point, if there is a point. -/
def readFraction : List Char → Option (List Nat × List Char)
  | '.' :: cs =>
    match spanDigits cs with
    | ([], _) => none
    | (ds, rest) => some (ds, rest)
  | cs => some ([], cs)

/-- The digits of an exponent after its sign. -/
def readPower (negative : Bool) (cs : List Char) : Option (Option (Bool × List Nat) × List Char) :=
  match spanDigits cs with
  | ([], _) => none
  | (ds, rest) => some (some (negative, ds), rest)

/-- The exponent, if there is one. -/
def readExponent : List Char → Option (Option (Bool × List Nat) × List Char)
  | [] => some (none, [])
  | c :: cs =>
    if c = 'e' ∨ c = 'E' then
      match cs with
      | '+' :: cs => readPower false cs
      | '-' :: cs => readPower true cs
      | cs => readPower false cs
    else some (none, c :: cs)

/-- Read a literal from the front of a text whose sign has been taken off. -/
def readUnsigned (negative : Bool) (cs : List Char) : Option (Literal × List Char) := do
  let (whole, cs) ← readWhole cs
  let (fraction, cs) ← readFraction cs
  let (exponent, cs) ← readExponent cs
  return (⟨negative, whole, fraction, exponent⟩, cs)

/-- Read a literal from the front of a text. -/
def read : List Char → Option (Literal × List Char)
  | '-' :: cs => readUnsigned true cs
  | cs => readUnsigned false cs

theorem length_readWhole {cs rest : List Char} {ds : List Nat}
    (h : readWhole cs = some (ds, rest)) : rest.length < cs.length := by
  have hlen := length_spanDigits cs
  unfold readWhole at h
  split at h
  · cases h
  · cases h
  · rename_i hne _ heq
    cases h
    rw [heq] at hlen
    cases ds with
    | nil => exact (hne rfl).elim
    | cons d ds =>
      simp only [List.length_cons] at hlen
      omega

theorem length_readFraction {cs rest : List Char} {ds : List Nat}
    (h : readFraction cs = some (ds, rest)) : rest.length ≤ cs.length := by
  unfold readFraction at h
  split at h
  · rename_i cs'
    have hlen := length_spanDigits cs'
    split at h
    · cases h
    · rename_i heq
      cases h
      rw [heq] at hlen
      dsimp only at hlen
      simp only [List.length_cons]
      omega
  · cases h
    exact Nat.le_refl _

theorem length_readPower {negative : Bool} {cs rest : List Char} {e : Option (Bool × List Nat)}
    (h : readPower negative cs = some (e, rest)) : rest.length ≤ cs.length := by
  have hlen := length_spanDigits cs
  unfold readPower at h
  split at h
  · cases h
  · rename_i heq
    cases h
    rw [heq] at hlen
    dsimp only at hlen
    omega

theorem length_readExponent {cs rest : List Char} {e : Option (Bool × List Nat)}
    (h : readExponent cs = some (e, rest)) : rest.length ≤ cs.length := by
  unfold readExponent at h
  split at h
  · cases h
    exact Nat.le_refl _
  · split at h
    · split at h
      all_goals
        have := length_readPower h
        simp only [List.length_cons] at this ⊢
        omega
    · cases h
      exact Nat.le_refl _

theorem length_readUnsigned {negative : Bool} {cs rest : List Char} {l : Literal}
    (h : readUnsigned negative cs = some (l, rest)) : rest.length < cs.length := by
  simp only [readUnsigned, Option.bind_eq_bind, Option.bind_eq_some_iff, Option.pure_def,
    Option.some.injEq, Prod.mk.injEq] at h
  obtain ⟨⟨ds, cs₁⟩, h₁, ⟨fs, cs₂⟩, h₂, ⟨e, cs₃⟩, h₃, -, rfl⟩ := h
  dsimp only at h₂ h₃ ⊢
  have := length_readWhole h₁
  have := length_readFraction h₂
  have := length_readExponent h₃
  omega

/-- A literal takes at least one character off the text. -/
theorem length_read {cs rest : List Char} {l : Literal} (h : read cs = some (l, rest)) :
    rest.length < cs.length := by
  unfold read at h
  split at h
  · have := length_readUnsigned h
    simp only [List.length_cons]
    omega
  · exact length_readUnsigned h

end Literal

/-- Append digits to a number while it fits 64 bits; also the count of digits left over. -/
def absorb (n : Nat) : List Nat → Nat × Nat
  | [] => (n, 0)
  | d :: ds => if n * 10 + d < UInt64.size then absorb (n * 10 + d) ds else (n, ds.length + 1)

/-- The value of a row of digits. -/
def digitsValue (ds : List Nat) : Nat := ds.foldl (fun n d => n * 10 + d) 0

/-- Divide by a power of ten, in steps of at most `10 ^ 308`. -/
def divTenPow (x : Binary64) (k : Nat) : Binary64 :=
  if k ≤ 308 then x.div (Binary64.ofTenPow k)
  else if x.mantissa = 0 then x
  else divTenPow (x.div (Binary64.ofTenPow 308)) (k - 308)
termination_by k

/-- The number made from digits and a power of ten. -/
def Number.ofParts (negative : Bool) (significand : Nat) (exponent : Int) : Number :=
  let x := Binary64.ofNat significand
  if exponent < 0 then .float negative (divTenPow x (-exponent).toNat)
  else if x.mantissa = 0 then .float negative x
  else if exponent ≤ 308 then
    match x.mul (Binary64.ofTenPow exponent.toNat) with
    | some y => .float negative y
    | none => .tooLarge
  else .tooLarge

/-- The number that a literal stands for. -/
def Literal.number (l : Literal) : Number :=
  let (whole, dropped) := absorb 0 l.whole
  let (significand, ignored) := absorb whole l.fraction
  let shift : Int := (dropped : Int) - ((l.fraction.length - ignored : Nat) : Int)
  match l.exponent with
  | some (negativeExponent, ds) =>
    let e := digitsValue ds
    if e < twoPow 31 then
      .ofParts l.negative significand (if negativeExponent then shift - e else shift + e)
    else if significand ≠ 0 ∧ negativeExponent = false then .tooLarge
    else .float l.negative Binary64.zero
  | none =>
    if l.fraction = [] ∧ dropped = 0 then
      if l.negative = false then .integer whole
      else if whole = 0 ∨ twoPow 63 < whole then .float true (Binary64.ofNat whole)
      else .integer (-whole)
    else .ofParts l.negative significand shift

end ImportRepair.Json
