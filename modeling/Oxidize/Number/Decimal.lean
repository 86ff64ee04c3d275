import Oxidize.Number.Binary64

/-!
# Decimal text of numbers

`Binary64.shortest` is the decimal with the fewest digits that reads back to a given number, the
nearest one among those, the upper one on a tie. `Decimal.positional` writes a decimal without an
exponent.
-/

namespace Oxidize

/-- The decimal `digits * 10 ^ exponent`. -/
structure Decimal where
  digits : Nat
  exponent : Int
deriving DecidableEq

namespace Decimal

/-- At most `n` trailing zeros of the digits moved into the exponent. -/
def trim : Nat → Decimal → Decimal
  | 0, d => d
  | n + 1, d => if d.digits % 10 = 0 then trim n ⟨d.digits / 10, d.exponent + 1⟩ else d

/-- The decimal in positional notation, with a point only where a fraction follows it. -/
def positional (d : Decimal) : String :=
  let ds := Nat.toDigits 10 d.digits
  if 0 ≤ d.exponent then
    String.ofList (ds ++ List.replicate d.exponent.toNat '0')
  else
    let places := (-d.exponent).toNat
    if ds.length ≤ places then
      String.ofList ('0' :: '.' :: List.replicate (places - ds.length) '0' ++ ds)
    else
      String.ofList (ds.take (ds.length - places) ++ '.' :: ds.drop (ds.length - places))

end Decimal

namespace Binary64

/-- How many further powers of ten bring `num / den` up to one. -/
def leadingZeros (den : Nat) : Nat → Nat → Nat
  | 0, _ => 0
  | n + 1, num => if den ≤ num * 10 then 0 else leadingZeros den n (num * 10) + 1

/-- The `k` with `10 ^ (k - 1) ≤ num / den < 10 ^ k`. -/
def decimalOrder (num den : Nat) : Int :=
  if den ≤ num then (Nat.toDigits 10 (num / den)).length
  else -(leadingZeros den 400 num : Int)

/-- The reals that round to a number, over a common denominator: the number itself, both ends, and
whether the ends belong. -/
structure Interval where
  value : Nat
  low : Nat
  high : Nat
  den : Nat
  closed : Bool

/-- The interval of a finite number other than zero. The gap below a power of two is half as wide
as the one above. -/
def interval (x : Binary64) : Interval :=
  let m := x.significand
  let q := x.exponent - 2
  let unit := if 0 ≤ q then Nat.pow 2 q.toNat else 1
  let below := if x.fractionBits = 0 && decide (1 < x.exponentBits) then 1 else 2
  { value := 4 * m * unit
    low := (4 * m - below) * unit
    high := (4 * m + 2) * unit
    den := if 0 ≤ q then 1 else Nat.pow 2 (-q).toNat
    closed := m % 2 == 0 }

/-- The decimal on the grid `10 ^ p` that lies in the interval nearest to its value, if any. -/
def Interval.onGrid? (i : Interval) (p : Int) : Option Decimal :=
  let step := i.den * Nat.pow 10 p.toNat
  let scale := Nat.pow 10 (-p).toNat
  let inside := fun c : Nat =>
    if i.closed then decide (i.low * scale ≤ c * step ∧ c * step ≤ i.high * scale)
    else decide (i.low * scale < c * step ∧ c * step < i.high * scale)
  let c := i.value * scale / step
  let rest := i.value * scale % step
  match inside c, inside (c + 1) with
  | true, true => some ⟨if 2 * rest < step then c else c + 1, p⟩
  | true, false => some ⟨c, p⟩
  | false, true => some ⟨c + 1, p⟩
  | false, false => none

/-- The first hit on the grids of `order - n`, `order - n - 1`, … -/
def Interval.firstHit (i : Interval) (order : Int) : Nat → Nat → Decimal
  | 0, n => ⟨i.value / i.den, order - n⟩
  | left + 1, n =>
    match i.onGrid? (order - n) with
    | some d => d
    | none => i.firstHit order left (n + 1)

/-- The shortest decimal that reads back to the magnitude of a finite number. -/
def shortest (x : Binary64) : Decimal :=
  if x.isZero then ⟨0, 0⟩
  else
    let i := x.interval
    (i.firstHit (decimalOrder i.value i.den) 18 1).trim 18

end Binary64

end Oxidize
