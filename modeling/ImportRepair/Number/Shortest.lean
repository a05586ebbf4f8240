import ImportRepair.Number.Binary64

/-!
# Shortest decimal text of a floating point number

The digits of a number are the fewest that read back as the number, and of those the nearest to it.
Texts are positional from `0.00001` up to sixteen digits before the point and scientific beyond;
positional texts always have a point, and exponents always have a sign.

## Implementation notes

A decimal reads back as a number when it lies between the midpoints to the neighbours of the
number, midpoints included for an even mantissa. For one digit, two digits and so on the search
looks at the two decimals of that many digits around the number, in exact arithmetic.
-/

namespace ImportRepair

/-- The decimal `digits * 10 ^ exponent`. -/
structure Decimal where
  digits : Nat
  exponent : Int
  deriving DecidableEq, Repr

namespace Decimal

/-- Compare a decimal with a quarter of `quarters * 2 ^ e`. -/
def compareQuarters (d : Decimal) (quarters : Nat) (e : Int) : Ordering :=
  let left := 4 * d.digits * tenPow d.exponent.toNat * twoPow (-e).toNat
  let right := quarters * twoPow e.toNat * tenPow (-d.exponent).toNat
  compare left right

/-- The same decimal without zeros at the end of its digits. -/
def strip : Nat → Decimal → Decimal
  | 0, d => d
  | n + 1, d =>
    if d.digits ≠ 0 ∧ d.digits % 10 = 0 then strip n ⟨d.digits / 10, d.exponent + 1⟩ else d

end Decimal

namespace Binary64

/-- Holds for the decimals that read back as a number. -/
def readsBack (x : Binary64) (d : Decimal) : Bool :=
  let below := if x.mantissa = twoPow 52 ∧ -1074 < x.exponent then 1 else 2
  let low := d.compareQuarters (4 * x.mantissa - below) x.exponent
  let high := d.compareQuarters (4 * x.mantissa + 2) x.exponent
  if x.mantissa % 2 = 0 then low != .lt && high != .gt else low == .gt && high == .lt

/-- The greatest decimal with a given exponent that is not above a number. -/
def decimalBelow (x : Binary64) (p : Int) : Decimal :=
  ⟨(x.mantissa * twoPow x.exponent.toNat * tenPow (-p).toNat) /
    (twoPow (-x.exponent).toNat * tenPow p.toNat), p⟩

/-- The exponent of the greatest power of ten that a positive number reaches. -/
def decimalOrder (x : Binary64) : Int :=
  let e : Int := x.mantissa.log2 + x.exponent
  let k := (e * 30103) / 100000
  if (Decimal.mk 1 k).compareQuarters (4 * x.mantissa) x.exponent = .gt then k - 1
  else if (Decimal.mk 1 (k + 1)).compareQuarters (4 * x.mantissa) x.exponent = .gt then k
  else k + 1

/-- The nearer of two adjacent decimals around a number; of two, the one with even digits. -/
def nearer (x : Binary64) (d : Decimal) : Decimal :=
  let up : Decimal := ⟨d.digits + 1, d.exponent⟩
  match (Decimal.mk (10 * d.digits + 5) (d.exponent - 1)).compareQuarters
      (4 * x.mantissa) x.exponent with
  | .lt => up
  | .gt => d
  | .eq => if d.digits % 2 = 0 then d else up

/-- Search the decimals of `17 - n` digits and more for one that reads back. -/
def searchDigits (x : Binary64) (order : Int) : Nat → Decimal
  | 0 => x.decimalBelow (order - 16)
  | n + 1 =>
    let d := x.decimalBelow (order - (16 - (n : Int)))
    let up : Decimal := ⟨d.digits + 1, d.exponent⟩
    match x.readsBack d, x.readsBack up with
    | true, true => x.nearer d
    | true, false => d
    | false, true => up
    | false, false => searchDigits x order n

/-- The decimal with the fewest digits that reads back as a number. -/
def shortest (x : Binary64) : Decimal :=
  if x.mantissa = 0 then ⟨0, 0⟩ else (searchDigits x x.decimalOrder 17).strip 20

end Binary64

namespace Decimal

/-- The text of a decimal: positional from `0.00001` to sixteen digits before the point. -/
def text (d : Decimal) : String :=
  let ds := Nat.toDigits 10 d.digits
  let point : Int := ds.length + d.exponent
  if 0 ≤ d.exponent ∧ point ≤ 16 then
    String.ofList (ds ++ List.replicate d.exponent.toNat '0') ++ ".0"
  else if 0 < point ∧ point ≤ 16 then
    String.ofList (ds.take point.toNat) ++ "." ++ String.ofList (ds.drop point.toNat)
  else if -5 < point ∧ point ≤ 0 then
    "0." ++ String.ofList (List.replicate (-point).toNat '0' ++ ds)
  else
    let mantissa := match ds with
      | [] => ""
      | [c] => String.ofList [c]
      | c :: cs => String.ofList (c :: '.' :: cs)
    mantissa ++ (if point < 1 then "e-" else "e+") ++ toString (point - 1).natAbs

end Decimal

/-- The text of a signed number; a negative zero keeps its sign. -/
def Binary64.text (negative : Bool) (x : Binary64) : String :=
  (if negative then "-" else "") ++ x.shortest.text

end ImportRepair
