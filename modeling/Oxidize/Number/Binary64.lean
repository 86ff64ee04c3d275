/-!
# Double-precision numbers

`Binary64` holds a number as its 64 bits and reads sign, exponent and fraction off them, so every
operation is exact arithmetic on naturals. `Binary64.ofDecimal?` rounds a decimal to the nearest
number, ties to the even significand, and answers `none` past the largest finite one.
-/

namespace Oxidize

/-- A double-precision number, kept as its 64 bits. -/
structure Binary64 where
  bits : UInt64
deriving DecidableEq

namespace Binary64

/-- The sign bit, which negative zero carries too. -/
def isNegative (x : Binary64) : Bool :=
  decide (Nat.pow 2 63 ≤ x.bits.toNat)

/-- The eleven exponent bits. -/
def exponentBits (x : Binary64) : Nat :=
  x.bits.toNat / Nat.pow 2 52 % Nat.pow 2 11

/-- The fifty-two fraction bits. -/
def fractionBits (x : Binary64) : Nat :=
  x.bits.toNat % Nat.pow 2 52

/-- Neither an infinity nor a NaN. -/
def isFinite (x : Binary64) : Bool :=
  x.exponentBits != 2047

/-- Not a number. -/
def isNaN (x : Binary64) : Bool :=
  x.exponentBits == 2047 && x.fractionBits != 0

/-- The significand `m` of a finite number of magnitude `m * 2 ^ q`. -/
def significand (x : Binary64) : Nat :=
  if x.exponentBits = 0 then x.fractionBits else Nat.pow 2 52 + x.fractionBits

/-- The exponent `q` of a finite number of magnitude `m * 2 ^ q`. -/
def exponent (x : Binary64) : Int :=
  if x.exponentBits = 0 then -1074 else x.exponentBits - 1075

/-- Zero of either sign. -/
def isZero (x : Binary64) : Bool :=
  x.exponentBits == 0 && x.fractionBits == 0

/-- The integral part of the magnitude of a finite number. -/
def integralPart (x : Binary64) : Nat :=
  if 0 ≤ x.exponent then x.significand * Nat.pow 2 x.exponent.toNat
  else x.significand / Nat.pow 2 (-x.exponent).toNat

/-- A finite number without a fractional part. -/
def isIntegral (x : Binary64) : Bool :=
  x.isFinite && (decide (0 ≤ x.exponent) || x.significand % Nat.pow 2 (-x.exponent).toNat == 0)

/-- The number as a position: its integral part, with everything below zero and NaN at zero and
everything past 64 bits at the largest position. -/
def toPosition (x : Binary64) : Nat :=
  if x.isNaN || x.isNegative then 0
  else if x.isFinite then min x.integralPart (Nat.pow 2 64 - 1)
  else Nat.pow 2 64 - 1

/-- Zero of the given sign. -/
def zero (negative : Bool) : Binary64 :=
  ⟨UInt64.ofNat (if negative then Nat.pow 2 63 else 0)⟩

/-- The quotient rounded to the nearest natural, a half going to the even one. -/
def roundQuotient (num den : Nat) : Nat :=
  let q := num / den
  let r := num % den
  if 2 * r < den then q else if den < 2 * r then q + 1 else q + q % 2

/-- Whether `2 ^ k ≤ num / den`. -/
def powTwoLe (k : Int) (num den : Nat) : Bool :=
  if 0 ≤ k then decide (den * Nat.pow 2 k.toNat ≤ num) else decide (den ≤ num * Nat.pow 2 (-k).toNat)

/-- The number nearest to `num / den`, `none` when that is past the largest finite number. -/
def ofRatio? (negative : Bool) (num den : Nat) : Option Binary64 :=
  if num = 0 then some (zero negative)
  else
    let k : Int := (num.log2 : Int) - den.log2
    let top : Int := if powTwoLe k num den then k else k - 1
    let q : Int := max (top - 52) (-1074)
    let m := if 0 ≤ q then roundQuotient num (den * Nat.pow 2 q.toNat)
      else roundQuotient (num * Nat.pow 2 (-q).toNat) den
    let magnitude := (q + 1074).toNat * Nat.pow 2 52 + m
    if magnitude < 2047 * Nat.pow 2 52 then
      some ⟨UInt64.ofNat ((if negative then Nat.pow 2 63 else 0) + magnitude)⟩
    else none

/-- The number nearest to `digits * 10 ^ exponent`. A decimal whose leading digit stands far
outside the range of the format is decided without computing the power. -/
def ofDecimal? (negative : Bool) (digits : Nat) (exponent : Int) : Option Binary64 :=
  if digits = 0 then some (zero negative)
  else
    let size : Int := (Nat.toDigits 10 digits).length + exponent
    if 310 < size then none
    else if size < -330 then some (zero negative)
    else if 0 ≤ exponent then ofRatio? negative (digits * Nat.pow 10 exponent.toNat) 1
    else ofRatio? negative digits (Nat.pow 10 (-exponent).toNat)

/-- The number nearest to an integer. -/
def ofInt? (i : Int) : Option Binary64 :=
  ofDecimal? (decide (i < 0)) i.natAbs 0

end Binary64

end Oxidize
