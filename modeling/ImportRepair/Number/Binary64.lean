/-!
# Binary floating point numbers

Finite, nonnegative binary64 numbers as `mantissa * 2 ^ exponent`, with the rounding of quotients
to the nearest number, ties to even. Signs are kept beside the number by those who need them.

## Implementation notes

All arithmetic is exact on natural numbers; a result is rounded once, at the end. A mantissa is
below `2 ^ 53`, and below `2 ^ 52` only at the least exponent `-1074`.
-/

namespace ImportRepair

/-- The power of two with an exponent. -/
def twoPow (k : Nat) : Nat := Nat.pow 2 k

/-- The power of ten with an exponent. -/
def tenPow (k : Nat) : Nat := Nat.pow 10 k

/-- The number `mantissa * 2 ^ exponent`. -/
structure Binary64 where
  mantissa : Nat
  exponent : Int
  deriving DecidableEq, Repr

namespace Binary64

/-- The number zero. -/
def zero : Binary64 := ⟨0, -1074⟩

/-- The natural number nearest to a quotient; of two, the even one. -/
def roundDiv (num den : Nat) : Nat :=
  let q := num / den
  let r := num % den
  if 2 * r < den then q
  else if den < 2 * r then q + 1
  else if q % 2 = 0 then q
  else q + 1

/-- The fraction `num / den * 2 ^ e`. -/
def shift (num den : Nat) (e : Int) : Nat × Nat :=
  if 0 ≤ e then (num * twoPow e.toNat, den) else (num, den * twoPow (-e).toNat)

/-- The exponent of the greatest power of two that a positive fraction reaches. -/
def binaryOrder (num den : Nat) : Int :=
  let e : Int := (num.log2 : Int) - (den.log2 : Int)
  let f := shift num den (-e)
  if f.2 ≤ f.1 then e else e - 1

/-- The number nearest to a fraction, unless it is beyond the greatest. -/
def ofFraction (num den : Nat) : Option Binary64 :=
  if num = 0 then some zero
  else
    let e := max (binaryOrder num den - 52) (-1074)
    let f := shift num den (-e)
    let m := roundDiv f.1 f.2
    if m = twoPow 53 then
      if 971 < e + 1 then none else some ⟨twoPow 52, e + 1⟩
    else if 971 < e then none
    else some ⟨m, e⟩

/-- The number nearest to a natural number below `2 ^ 64`. -/
def ofNat (n : Nat) : Binary64 := (ofFraction n 1).getD zero

/-- The number nearest to a power of ten up to `10 ^ 308`. -/
def ofTenPow (k : Nat) : Binary64 := ofNat (tenPow k)

/-- The product, rounded. -/
def mul (x y : Binary64) : Option Binary64 :=
  let f := shift (x.mantissa * y.mantissa) 1 (x.exponent + y.exponent)
  ofFraction f.1 f.2

/-- The quotient by a number that is at least one, rounded. -/
def div (x y : Binary64) : Binary64 :=
  let f := shift x.mantissa y.mantissa (x.exponent - y.exponent)
  (ofFraction f.1 f.2).getD zero

end Binary64

end ImportRepair
