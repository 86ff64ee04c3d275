import Mathlib.Algebra.Order.Field.Power
import Mathlib.Algebra.Order.Ring.Rat
import Mathlib.Data.Nat.Cast.Order.Field
import Mathlib.Tactic.GCongr
import Mathlib.Tactic.Linarith
import Mathlib.Tactic.NormNum
import Mathlib.Tactic.Positivity
import Mathlib.Tactic.Ring
import Mathlib.Tactic.SplitIfs
import Oxidize.Number.Decimal

/-!
# Rounding to the nearest number

`RoundsTo v x` says that a rational value lies in the interval of those that are nearest to a number,
its ends included if the significand is even. `ofRatio?_eq_some` says that rounding finds the number
of that interval. There are two cases. Usually the value is rounded in the units in which the number
is written. Only below a power of two, where numbers are twice as dense, a value may be rounded in
half these units: then it is rounded up to the power, whose bits come out by the carry
(`RoundsTo.of_lt_zpow`).
-/

namespace Oxidize

namespace Binary64

/-! ## The fields of a number -/

section fields

variable {x : Binary64}

/-- The fraction has 52 bits. -/
theorem fractionBits_lt (x : Binary64) : x.fractionBits < 2 ^ 52 :=
  Nat.mod_lt _ (by decide)

/-- The significand has 53 bits. -/
theorem significand_lt (x : Binary64) : x.significand < 2 ^ 53 := by
  have := x.fractionBits_lt
  rw [significand]
  split
  · omega
  · change 2 ^ 52 + x.fractionBits < 2 ^ 53
    omega

/-- The exponent is at least that of subnormal numbers. -/
theorem le_exponent (x : Binary64) : -1074 ≤ x.exponent := by
  rw [exponent]
  split <;> omega

/-- The exponent of a finite number is bounded. -/
theorem exponent_le (h : x.isFinite = true) : x.exponent ≤ 971 := by
  have hlt : x.exponentBits < 2 ^ 11 := Nat.mod_lt _ (by decide)
  rw [isFinite, bne_iff_ne] at h
  rw [exponent]
  split <;> omega

/-- A number past the smallest exponent has the leading bit. -/
theorem le_significand (h : -1074 < x.exponent) : 2 ^ 52 ≤ x.significand := by
  rw [exponent] at h
  rw [significand]
  split at h
  · omega
  next hne =>
    rw [if_neg hne]
    exact Nat.le_add_right _ _

/-- A number other than zero has a significand other than zero. -/
theorem significand_pos (h : x.isZero = false) : 0 < x.significand := by
  rw [isZero, Bool.and_eq_false_iff, beq_eq_false_iff_ne, beq_eq_false_iff_ne] at h
  rw [significand]
  split
  · omega
  · exact Nat.lt_of_lt_of_le (by decide) (Nat.le_add_right _ _)

/-- The bits of a number without a sign count the numbers below it. -/
theorem toNat_bits (h : x.isNegative = false) :
    (x.bits.toNat : ℤ) = (x.exponent + 1074) * 2 ^ 52 + x.significand := by
  have hlt : x.bits.toNat < 2 ^ 63 := by
    rw [isNegative, decide_eq_false_iff_not] at h
    exact Nat.lt_of_not_le h
  have hbits : x.bits.toNat = 2 ^ 52 * x.exponentBits + x.fractionBits := by
    have hexp : x.exponentBits = x.bits.toNat / 2 ^ 52 :=
      Nat.mod_eq_of_lt (Nat.div_lt_of_lt_mul (by omega))
    rw [hexp]
    exact (Nat.div_add_mod _ _).symm
  rw [hbits, exponent, significand]
  split
  next hzero => rw [hzero]; push_cast; ring
  · have hpow : Nat.pow 2 52 = 2 ^ 52 := rfl
    rw [hpow]
    push_cast
    ring

end fields

/-! ## Rounding a quotient -/

/-- The quotient rounds to a natural at most a half away, and to one exactly a half away if that is
even. -/
theorem roundQuotient_eq {num den r : ℕ} (hden : 0 < den) (hlow : 2 * r * den ≤ 2 * num + den)
    (hhigh : 2 * num ≤ 2 * r * den + den)
    (hodd : r % 2 = 1 → 2 * r * den < 2 * num + den ∧ 2 * num < 2 * r * den + den) :
    roundQuotient num den = r := by
  have hnum : num = den * (num / den) + num % den := (Nat.div_add_mod num den).symm
  have hrest : num % den < den := Nat.mod_lt num hden
  rw [roundQuotient]
  generalize num / den = q at hnum ⊢
  generalize num % den = rest at hnum hrest ⊢
  subst hnum
  have hle : q ≤ r := by
    by_contra hlt
    have : den * (r + 1) ≤ den * q := Nat.mul_le_mul_left den (by omega)
    nlinarith
  have hge : r ≤ q + 1 := by
    by_contra hlt
    have : den * (q + 2) ≤ den * r := Nat.mul_le_mul_left den (by omega)
    nlinarith
  obtain rfl | rfl : r = q ∨ r = q + 1 := by omega
  · have hrest' : 2 * rest ≤ den := by linarith
    have hodd' : r % 2 = 1 → 2 * rest < den := fun h => by linarith [(hodd h).2]
    split_ifs <;> omega
  · have hrest' : den ≤ 2 * rest := by linarith
    have hodd' : (q + 1) % 2 = 1 → den < 2 * rest := fun h => by linarith [(hodd h).1]
    split_ifs <;> omega

/-- A quotient rounds to an integer no further than a half away, and to an odd one only if it is
nearer. -/
theorem roundQuotient_div_eq {num den r : ℕ} (hden : 0 < den) (hlow : r - 1 / 2 ≤ (num / den : ℚ))
    (hhigh : (num / den : ℚ) ≤ r + 1 / 2)
    (hodd : r % 2 = 1 → r - 1 / 2 < (num / den : ℚ) ∧ (num / den : ℚ) < r + 1 / 2) :
    roundQuotient num den = r := by
  have hden' : (0 : ℚ) < den := by exact_mod_cast hden
  rw [le_div_iff₀ hden'] at hlow
  rw [div_le_iff₀ hden'] at hhigh
  rw [lt_div_iff₀ hden', div_lt_iff₀ hden'] at hodd
  refine roundQuotient_eq hden ?_ ?_ fun h => ?_
  · have : (2 * r * den : ℚ) ≤ 2 * num + den := by linarith
    exact_mod_cast this
  · have : (2 * num : ℚ) ≤ 2 * r * den + den := by linarith
    exact_mod_cast this
  · obtain ⟨h₁, h₂⟩ := hodd h
    have hlow' : (2 * r * den : ℚ) < 2 * num + den := by linarith
    have hhigh' : (2 * num : ℚ) < 2 * r * den + den := by linarith
    exact ⟨by exact_mod_cast hlow', by exact_mod_cast hhigh'⟩

/-! ## The binary order of a quotient -/

/-- The comparison with a power of two is one of rational numbers. -/
theorem powTwoLe_iff {k : ℤ} {num den : ℕ} (hden : 0 < den) :
    powTwoLe k num den = true ↔ (2 : ℚ) ^ k ≤ num / den := by
  have hden' : (0 : ℚ) < den := by exact_mod_cast hden
  rw [powTwoLe, le_div_iff₀ hden']
  split
  next hk =>
    obtain ⟨n, rfl⟩ := Int.eq_ofNat_of_zero_le hk
    rw [decide_eq_true_eq, Int.toNat_natCast, zpow_natCast, mul_comm]
    exact_mod_cast Iff.rfl
  next hk =>
    obtain ⟨n, rfl⟩ : ∃ n : ℕ, k = -n := ⟨(-k).toNat, by omega⟩
    rw [decide_eq_true_eq, neg_neg, Int.toNat_natCast, zpow_neg, zpow_natCast,
      inv_mul_le_iff₀ (by positivity), mul_comm]
    exact_mod_cast Iff.rfl

/-- The exponent of the largest power of two up to a quotient. -/
def binaryOrder (num den : ℕ) : ℤ :=
  let k : ℤ := (num.log2 : ℤ) - den.log2
  if powTwoLe k num den then k else k - 1

/-- The power of two of the order of a quotient is no greater than it. -/
theorem zpow_binaryOrder_le {num den : ℕ} (hnum : num ≠ 0) (hden : 0 < den) :
    (2 : ℚ) ^ binaryOrder num den ≤ num / den := by
  rw [binaryOrder]
  split
  next h => exact (powTwoLe_iff hden).1 h
  next =>
    have hnum' : (2 : ℚ) ^ num.log2 ≤ num := by exact_mod_cast Nat.log2_self_le hnum
    have hden' : (den : ℚ) ≤ 2 ^ (den.log2 + 1) := by exact_mod_cast Nat.lt_log2_self.le
    have hpos : (0 : ℚ) < den := by exact_mod_cast hden
    calc (2 : ℚ) ^ ((num.log2 : ℤ) - den.log2 - 1)
        = 2 ^ num.log2 / 2 ^ (den.log2 + 1) := by
          rw [sub_sub, zpow_sub₀ two_ne_zero]
          norm_cast
      _ ≤ num / den := by gcongr

/-- The next power of two is greater than the quotient. -/
theorem lt_zpow_binaryOrder {num den : ℕ} (hden : 0 < den) :
    (num / den : ℚ) < 2 ^ (binaryOrder num den + 1) := by
  rw [binaryOrder]
  split
  next =>
    have hnum' : (num : ℚ) < 2 ^ (num.log2 + 1) := by exact_mod_cast Nat.lt_log2_self
    have hden' : (2 : ℚ) ^ den.log2 ≤ den := by exact_mod_cast Nat.log2_self_le hden.ne'
    calc (num / den : ℚ) < 2 ^ (num.log2 + 1) / 2 ^ den.log2 := by gcongr
      _ = 2 ^ ((num.log2 : ℤ) - den.log2 + 1) := by
          rw [show (num.log2 : ℤ) - den.log2 + 1 = (num.log2 + 1 : ℕ) - (den.log2 : ℕ) by
            push_cast; ring, zpow_sub₀ two_ne_zero]
          norm_cast
  next h =>
    rw [powTwoLe_iff hden, not_le] at h
    rwa [sub_add_cancel]

/-- The order of a quotient is determined by the powers of two around it. -/
theorem binaryOrder_eq {num den : ℕ} {k : ℤ} (hnum : num ≠ 0) (hden : 0 < den)
    (hle : (2 : ℚ) ^ k ≤ num / den) (hlt : (num / den : ℚ) < 2 ^ (k + 1)) :
    binaryOrder num den = k := by
  have h₁ := (zpow_lt_zpow_iff_right₀ (by norm_num : (1 : ℚ) < 2)).1
    ((zpow_binaryOrder_le hnum hden).trans_lt hlt)
  have h₂ := (zpow_lt_zpow_iff_right₀ (by norm_num : (1 : ℚ) < 2)).1
    (hle.trans_lt (lt_zpow_binaryOrder hden))
  omega

/-! ## Rounding a quotient at an exponent -/

/-- The quotient in units of `2 ^ q`, rounded. -/
def roundAt (q : ℤ) (num den : ℕ) : ℕ :=
  if 0 ≤ q then roundQuotient num (den * Nat.pow 2 q.toNat)
  else roundQuotient (num * Nat.pow 2 (-q).toNat) den

/-- A quotient rounds to a multiple of a unit no further than half of it away, and to an odd one only
if it is nearer. -/
theorem roundAt_eq {q : ℤ} {num den r : ℕ} (hden : 0 < den)
    (hlow : (r - 1 / 2) * 2 ^ q ≤ (num / den : ℚ)) (hhigh : (num / den : ℚ) ≤ (r + 1 / 2) * 2 ^ q)
    (hodd : r % 2 = 1 →
      (r - 1 / 2) * 2 ^ q < (num / den : ℚ) ∧ (num / den : ℚ) < (r + 1 / 2) * 2 ^ q) :
    roundAt q num den = r := by
  have hpos : (0 : ℚ) < 2 ^ q := by positivity
  rw [← le_div_iff₀ hpos] at hlow
  rw [← div_le_iff₀ hpos] at hhigh
  rw [← lt_div_iff₀ hpos, ← div_lt_iff₀ hpos] at hodd
  rw [roundAt]
  split
  next hq =>
    obtain ⟨n, rfl⟩ := Int.eq_ofNat_of_zero_le hq
    have heq : (num / den / 2 ^ (n : ℤ) : ℚ) = num / (den * 2 ^ n : ℕ) := by
      rw [zpow_natCast, div_div]
      push_cast
      rfl
    rw [heq] at hlow hhigh hodd
    exact roundQuotient_div_eq (Nat.mul_pos hden (Nat.two_pow_pos n)) hlow hhigh hodd
  next hq =>
    obtain ⟨n, rfl⟩ : ∃ n : ℕ, q = -n := ⟨(-q).toNat, by omega⟩
    have heq : (num / den / 2 ^ (-n : ℤ) : ℚ) = (num * 2 ^ n : ℕ) / den := by
      rw [zpow_neg, zpow_natCast, div_inv_eq_mul, div_mul_eq_mul_div]
      push_cast
      rfl
    rw [heq] at hlow hhigh hodd
    rw [neg_neg]
    exact roundQuotient_div_eq hden hlow hhigh hodd

/-! ## The reals that round to a number -/

/-- The distance, in units of the last place, down to which reals round to a number. The gap below a
power of two is half as wide as the one above. -/
def gapBelow (x : Binary64) : ℚ :=
  if x.fractionBits = 0 && decide (1 < x.exponentBits) then 1 / 4 else 1 / 2

/-- A value in the interval of those that round to a number. The ends belong to it if the
significand is even. -/
structure RoundsTo (v : ℚ) (x : Binary64) : Prop where
  low : (x.significand - x.gapBelow) * 2 ^ x.exponent ≤ v
  high : v ≤ (x.significand + 1 / 2) * 2 ^ x.exponent
  odd : x.significand % 2 = 1 →
    (x.significand - x.gapBelow) * 2 ^ x.exponent < v ∧
      v < (x.significand + 1 / 2) * 2 ^ x.exponent

/-- The gap below a number is at most half a unit. -/
theorem gapBelow_le (x : Binary64) : x.gapBelow ≤ 1 / 2 := by
  rw [gapBelow]
  split <;> norm_num

namespace RoundsTo

variable {v : ℚ} {x : Binary64}

/-- At most half a unit below the number. -/
theorem half_low (h : RoundsTo v x) : (x.significand - 1 / 2) * 2 ^ x.exponent ≤ v := by
  refine le_trans ?_ h.low
  have := x.gapBelow_le
  gcongr

/-- What rounds to a number other than zero is positive. -/
theorem pos (h : RoundsTo v x) (hzero : x.isZero = false) : 0 < v := by
  have hm : (1 : ℚ) ≤ x.significand := by exact_mod_cast significand_pos hzero
  refine lt_of_lt_of_le ?_ h.half_low
  have : (0 : ℚ) < x.significand - 1 / 2 := by linarith
  positivity

/-- What rounds to a number is below the first power of two that its significand cannot reach. -/
theorem lt_zpow (h : RoundsTo v x) : v < 2 ^ (x.exponent + 53) := by
  have hm : (x.significand : ℚ) + 1 ≤ 2 ^ 53 := by exact_mod_cast x.significand_lt
  calc v ≤ (x.significand + 1 / 2) * 2 ^ x.exponent := h.high
    _ < 2 ^ 53 * 2 ^ x.exponent := by
      gcongr
      linarith
    _ = 2 ^ (x.exponent + 53) := by
      rw [zpow_add₀ two_ne_zero, mul_comm]
      norm_cast

/-- A value below the last power of two up to the number itself: then the number is that power and
the value is in the narrow gap below it. -/
theorem of_lt_zpow (h : RoundsTo v x) (hexp : -1074 < x.exponent)
    (hlt : v < 2 ^ (x.exponent + 52)) :
    x.significand = 2 ^ 52 ∧ (2 ^ 52 - 1 / 4) * 2 ^ x.exponent ≤ v := by
  have hpow : (2 : ℚ) ^ (x.exponent + 52) = 2 ^ 52 * 2 ^ x.exponent := by
    rw [zpow_add₀ two_ne_zero, mul_comm]
    norm_cast
  have hm : x.significand = 2 ^ 52 := by
    have hlow := h.half_low
    rw [hpow] at hlt
    have hcancel := lt_of_mul_lt_mul_right (hlow.trans_lt hlt) (by positivity)
    have hle : (x.significand : ℚ) < 2 ^ 52 + 1 := by linarith
    have hle' : x.significand < 2 ^ 52 + 1 := by exact_mod_cast hle
    have := le_significand hexp
    omega
  refine ⟨hm, ?_⟩
  have hgap : x.gapBelow = 1 / 4 := by
    rw [significand] at hm
    rw [exponent] at hexp
    have hpow : Nat.pow 2 52 = 2 ^ 52 := rfl
    split at hexp
    · omega
    next hne =>
      rw [if_neg hne] at hm
      have hfraction : x.fractionBits = 0 := by omega
      have hbits : 1 < x.exponentBits := by omega
      simp [gapBelow, hfraction, hbits]
  have hlow := h.low
  rw [hgap, hm] at hlow
  exact_mod_cast hlow

end RoundsTo

/-- The exponent at which a quotient is rounded. -/
def roundingExponent (num den : ℕ) : ℤ :=
  max (binaryOrder num den - 52) (-1074)

/-- A quotient other than zero is rounded at its exponent, unless the result is too large. -/
theorem ofRatio?_eq {num : ℕ} (hnum : num ≠ 0) (den : ℕ) :
    ofRatio? false num den =
      let q := roundingExponent num den
      let magnitude := (q + 1074).toNat * 2 ^ 52 + roundAt q num den
      if magnitude < 2047 * 2 ^ 52 then some ⟨UInt64.ofNat magnitude⟩ else none := by
  rw [ofRatio?, if_neg hnum]
  simp only [Bool.false_eq_true, if_false, Nat.zero_add]
  rfl

/-- The bits of the result are those of the exponent and of the rounded significand together. -/
theorem ofRatio?_eq_some_of_bits {x : Binary64} {num den r : ℕ} (hfinite : x.isFinite = true)
    (hsign : x.isNegative = false) (hnum : num ≠ 0)
    (hr : roundAt (roundingExponent num den) num den = r)
    (hbits : (roundingExponent num den + 1074) * 2 ^ 52 + r =
      (x.exponent + 1074) * 2 ^ 52 + x.significand) :
    ofRatio? false num den = some x := by
  have hle := exponent_le hfinite
  have hlt := significand_lt x
  have hq : -1074 ≤ roundingExponent num den := le_max_right _ _
  have htoNat := toNat_bits hsign
  have hmagnitude : (roundingExponent num den + 1074).toNat * 2 ^ 52 + r = x.bits.toNat := by omega
  rw [ofRatio?_eq hnum]
  simp only [hr, hmagnitude]
  rw [if_pos (by omega), UInt64.ofNat_toNat]

namespace RoundsTo

variable {x : Binary64} {num den : ℕ}

/-- A quotient that rounds to a number other than zero is none of zero. -/
theorem num_ne_zero (h : RoundsTo (num / den) x) (hzero : x.isZero = false) : num ≠ 0 := by
  rintro rfl
  have := h.pos hzero
  simp at this

/-- A value that is not below the last power of two up to the number is rounded at the exponent of
the number, to its significand. -/
theorem roundAt_eq_significand (h : RoundsTo (num / den) x) (hnum : num ≠ 0) (hden : 0 < den)
    (hpow : x.exponent = -1074 ∨ 2 ^ (x.exponent + 52) ≤ (num / den : ℚ)) :
    roundingExponent num den = x.exponent ∧ roundAt x.exponent num den = x.significand := by
  have hge := le_exponent x
  have hgap := x.gapBelow_le
  constructor
  · have hlt := (zpow_lt_zpow_iff_right₀ one_lt_two).1
      ((zpow_binaryOrder_le hnum hden).trans_lt h.lt_zpow)
    rw [roundingExponent]
    rcases hpow with hpow | hpow
    · omega
    · have := (zpow_lt_zpow_iff_right₀ one_lt_two).1
        (hpow.trans_lt (lt_zpow_binaryOrder hden))
      omega
  · refine roundAt_eq hden h.half_low h.high fun hodd => ⟨?_, (h.odd hodd).2⟩
    refine lt_of_le_of_lt ?_ (h.odd hodd).1
    gcongr

/-- A value below the last power of two up to the number is rounded in half the units, up to the
power. -/
theorem roundAt_eq_two_pow (h : RoundsTo (num / den) x) (hnum : num ≠ 0) (hden : 0 < den)
    (hexp : -1074 < x.exponent) (hlt : (num / den : ℚ) < 2 ^ (x.exponent + 52)) :
    roundingExponent num den = x.exponent - 1 ∧ roundAt (x.exponent - 1) num den = 2 ^ 53 := by
  obtain ⟨-, hlow⟩ := h.of_lt_zpow hexp hlt
  have hhalf : (2 : ℚ) ^ x.exponent = 2 * 2 ^ (x.exponent - 1) := by
    rw [zpow_sub_one₀ two_ne_zero]
    ring
  have hhigh : (num / den : ℚ) < 2 ^ 53 * 2 ^ (x.exponent - 1) := by
    refine hlt.trans_eq ?_
    rw [show x.exponent + 52 = 53 + (x.exponent - 1) by ring, zpow_add₀ two_ne_zero]
    norm_cast
  constructor
  · have horder : binaryOrder num den = x.exponent + 51 := by
      refine binaryOrder_eq hnum hden (le_trans ?_ hlow) (by rw [add_assoc]; exact hlt)
      rw [zpow_add₀ two_ne_zero, mul_comm]
      gcongr
      norm_num
    rw [roundingExponent, horder]
    omega
  · refine roundAt_eq hden ?_ ?_ (by norm_num)
    · rw [hhalf] at hlow
      push_cast
      linarith
    · refine hhigh.le.trans ?_
      gcongr
      push_cast
      norm_num

end RoundsTo

/-- The number nearest to a quotient. -/
theorem ofRatio?_eq_some {x : Binary64} {num den : ℕ} (hfinite : x.isFinite = true)
    (hsign : x.isNegative = false) (hzero : x.isZero = false) (hden : 0 < den)
    (h : RoundsTo (num / den) x) : ofRatio? false num den = some x := by
  have hnum := h.num_ne_zero hzero
  have hge := le_exponent x
  by_cases hpow : x.exponent = -1074 ∨ 2 ^ (x.exponent + 52) ≤ (num / den : ℚ)
  · obtain ⟨hexp, hround⟩ := h.roundAt_eq_significand hnum hden hpow
    refine ofRatio?_eq_some_of_bits hfinite hsign hnum (r := x.significand) ?_ ?_
    · rw [hexp, hround]
    · rw [hexp]
  · rw [not_or, not_le] at hpow
    have hexp : -1074 < x.exponent := by omega
    obtain ⟨hm, -⟩ := h.of_lt_zpow hexp hpow.2
    obtain ⟨hexp, hround⟩ := h.roundAt_eq_two_pow hnum hden hexp hpow.2
    refine ofRatio?_eq_some_of_bits hfinite hsign hnum (r := 2 ^ 53) ?_ ?_
    · rw [hexp, hround]
    · rw [hexp, hm]
      push_cast
      ring

end Binary64

end Oxidize
