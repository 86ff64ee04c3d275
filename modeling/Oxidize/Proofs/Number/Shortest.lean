import Oxidize.Proofs.Number.Rounding

/-!
# The shortest decimal reads back

A decimal in the interval of a number reads as that number (`ofDecimal?_eq_some`), and the shortest
decimal of a number is in its interval (`roundsTo_shortest`): the search goes through finer and finer
grids, and the finest of them has a point between a number and the end of its interval
(`zpow_decimalOrder_lt`), so there always is a hit.
-/

namespace Oxidize

/-- The rational number that a decimal is. -/
def Decimal.toRat (d : Decimal) : ℚ :=
  d.digits * 10 ^ d.exponent

/-- Dropping zeros at the end keeps the number. -/
theorem Decimal.toRat_trim (n : ℕ) (d : Decimal) : (d.trim n).toRat = d.toRat := by
  induction n generalizing d with
  | zero => rfl
  | succ n ih =>
    rw [trim]
    split
    next hd =>
      obtain ⟨k, hk⟩ := Nat.dvd_of_mod_eq_zero hd
      rw [ih, toRat, toRat, hk, Nat.mul_div_cancel_left k (by decide), zpow_add_one₀ (by norm_num)]
      push_cast
      ring
    next => rfl

namespace Binary64

/-! ## Reading a decimal -/

/-- A positive number is at least the power of ten with one digit less than it has. -/
theorem pow_le_of_length_toDigits {n : ℕ} (hn : 0 < n) :
    10 ^ ((Nat.toDigits 10 n).length - 1) ≤ n := by
  by_contra hlt
  rw [not_le] at hlt
  by_cases hlen : (Nat.toDigits 10 n).length - 1 = 0
  · rw [hlen] at hlt
    omega
  · have := (Nat.length_toDigits_le_iff (by decide) (by omega)).2 hlt
    omega

/-- A number is less than the power of ten with its number of digits. -/
theorem lt_pow_length_toDigits (n : ℕ) : n < 10 ^ (Nat.toDigits 10 n).length :=
  (Nat.length_toDigits_le_iff (by decide) Nat.length_toDigits_pos).1 (Nat.le_refl _)

/-- Negative powers compare the other way round than positive ones. -/
theorem zpow_neg_le_zpow_neg {a b : ℕ} (h : 2 ^ b ≤ 10 ^ a) :
    (10 : ℚ) ^ (-a : ℤ) ≤ 2 ^ (-b : ℤ) := by
  rw [zpow_neg, zpow_neg, zpow_natCast, zpow_natCast]
  exact inv_anti₀ (by positivity) (by exact_mod_cast h)

/-- No number is as small as `10 ^ -324`. -/
theorem RoundsTo.zpow_ten_le {v : ℚ} {x : Binary64} (h : RoundsTo v x) (hzero : x.isZero = false) :
    (10 : ℚ) ^ (-(324 : ℕ) : ℤ) ≤ v := by
  have hm : (1 : ℚ) ≤ x.significand := by exact_mod_cast significand_pos hzero
  have hexp := x.le_exponent
  calc (10 : ℚ) ^ (-(324 : ℕ) : ℤ) ≤ 2 ^ (-(1075 : ℕ) : ℤ) :=
        zpow_neg_le_zpow_neg (by decide +kernel)
    _ ≤ 2 ^ (x.exponent - 1) := zpow_le_zpow_right₀ one_le_two (by omega)
    _ = 1 / 2 * 2 ^ x.exponent := by
      rw [zpow_sub_one₀ two_ne_zero]
      ring
    _ ≤ (x.significand - 1 / 2) * 2 ^ x.exponent := by
      gcongr
      linarith
    _ ≤ v := h.half_low

/-- The place of the leading digit of a decimal that rounds to a finite number. -/
theorem RoundsTo.size_bounds {n : ℕ} {e : ℤ} {x : Binary64} (h : RoundsTo (n * 10 ^ e) x)
    (hfinite : x.isFinite = true) (hzero : x.isZero = false) (hn : 0 < n) :
    -330 ≤ (Nat.toDigits 10 n).length + e ∧ (Nat.toDigits 10 n).length + e ≤ 310 := by
  have hten : (1 : ℚ) < 10 := by norm_num
  have hlen : 0 < (Nat.toDigits 10 n).length := Nat.length_toDigits_pos
  constructor
  · have hupper : (n * 10 ^ e : ℚ) < 10 ^ ((Nat.toDigits 10 n).length + e) := by
      rw [zpow_add₀ (by norm_num), zpow_natCast]
      gcongr
      exact_mod_cast lt_pow_length_toDigits n
    have := (zpow_lt_zpow_iff_right₀ hten).1 ((h.zpow_ten_le hzero).trans_lt hupper)
    omega
  · have hlower : (10 : ℚ) ^ ((Nat.toDigits 10 n).length - 1 + e) ≤ n * 10 ^ e := by
      rw [zpow_add₀ (by norm_num)]
      gcongr
      rw [show ((Nat.toDigits 10 n).length : ℤ) - 1 = ((Nat.toDigits 10 n).length - 1 : ℕ) by omega,
        zpow_natCast]
      exact_mod_cast pow_le_of_length_toDigits hn
    have hupper : (n * 10 ^ e : ℚ) < 10 ^ (309 : ℤ) := by
      calc (n * 10 ^ e : ℚ) < 2 ^ (x.exponent + 53) := h.lt_zpow
        _ ≤ 2 ^ (1024 : ℤ) := by
          have := exponent_le hfinite
          gcongr
          · norm_num
          · omega
        _ ≤ 10 ^ (309 : ℤ) := by exact_mod_cast (by decide +kernel : 2 ^ 1024 ≤ 10 ^ 309)
    have := (zpow_lt_zpow_iff_right₀ hten).1 (hlower.trans_lt hupper)
    omega

/-- A decimal among the reals that round to a number reads as that number. -/
theorem ofDecimal?_eq_some {n : ℕ} {e : ℤ} {x : Binary64} (hfinite : x.isFinite = true)
    (hsign : x.isNegative = false) (hzero : x.isZero = false) (h : RoundsTo (n * 10 ^ e) x) :
    ofDecimal? false n e = some x := by
  have hn : n ≠ 0 := by
    rintro rfl
    have := h.pos hzero
    simp at this
  obtain ⟨hlow, hhigh⟩ := h.size_bounds hfinite hzero (Nat.pos_of_ne_zero hn)
  rw [ofDecimal?, if_neg hn]
  simp only
  rw [if_neg (by omega), if_neg (by omega)]
  split
  next he =>
    obtain ⟨k, rfl⟩ := Int.eq_ofNat_of_zero_le he
    refine ofRatio?_eq_some hfinite hsign hzero Nat.one_pos ?_
    have heq : (n * 10 ^ (k : ℤ) : ℚ) = (n * 10 ^ k : ℕ) / (1 : ℕ) := by
      push_cast
      rw [zpow_natCast, div_one]
    rwa [heq] at h
  next he =>
    obtain ⟨k, rfl⟩ : ∃ k : ℕ, e = -k := ⟨(-e).toNat, by omega⟩
    refine ofRatio?_eq_some hfinite hsign hzero (Nat.pow_pos (by decide)) ?_
    have heq : (n * 10 ^ (-k : ℤ) : ℚ) = n / (10 ^ k : ℕ) := by
      push_cast
      rw [zpow_neg, zpow_natCast, div_eq_mul_inv]
    rw [heq] at h
    rwa [neg_neg]

/-! ## The interval of a number

The ends of `interval` are the ends of the reals that round to the number, so a decimal that is found
in it rounds to the number.
-/

section interval

variable (x : Binary64)

/-- A quarter of a unit in the last place, over the denominator of the interval. -/
def quarterUnit : ℕ :=
  if 0 ≤ x.exponent - 2 then Nat.pow 2 (x.exponent - 2).toNat else 1

/-- The denominator of the interval is positive. -/
theorem interval_den_pos : 0 < x.interval.den := by
  simp only [interval]
  split
  · exact Nat.one_pos
  · exact Nat.two_pow_pos _

/-- What a quarter of a unit is, over the denominator of the interval. -/
theorem cast_quarterUnit : (x.quarterUnit : ℚ) = 2 ^ x.exponent / 4 * x.interval.den := by
  have hquarter : (2 : ℚ) ^ x.exponent / 4 = 2 ^ (x.exponent - 2) := by
    rw [zpow_sub₀ two_ne_zero]
    norm_num
  simp only [quarterUnit, interval, hquarter]
  split
  next h =>
    obtain ⟨k, hk⟩ := Int.eq_ofNat_of_zero_le h
    rw [hk, Int.toNat_natCast, zpow_natCast, Nat.cast_one, mul_one]
    exact Nat.cast_pow 2 k
  next h =>
    obtain ⟨k, hk⟩ : ∃ k : ℕ, x.exponent - 2 = -k := ⟨(-(x.exponent - 2)).toNat, by omega⟩
    have hpow : ((Nat.pow 2 k : ℕ) : ℚ) = 2 ^ k := Nat.cast_pow 2 k
    rw [hk, neg_neg, Int.toNat_natCast, zpow_neg, zpow_natCast, hpow, Nat.cast_one,
      inv_mul_cancel₀ (by positivity)]

/-- The value of the interval is the number. -/
theorem interval_value :
    (x.interval.value : ℚ) = x.significand * 2 ^ x.exponent * x.interval.den := by
  have heq : x.interval.value = 4 * x.significand * x.quarterUnit := rfl
  rw [heq, Nat.cast_mul, cast_quarterUnit]
  push_cast
  ring

/-- The upper end of the interval is half a unit above the number. -/
theorem interval_high :
    (x.interval.high : ℚ) = (x.significand + 1 / 2) * 2 ^ x.exponent * x.interval.den := by
  have heq : x.interval.high = (4 * x.significand + 2) * x.quarterUnit := rfl
  rw [heq, Nat.cast_mul, cast_quarterUnit]
  push_cast
  ring

variable {x}

/-- The lower end of the interval is the gap below the number away from it. -/
theorem interval_low (hzero : x.isZero = false) :
    (x.interval.low : ℚ) = (x.significand - x.gapBelow) * 2 ^ x.exponent * x.interval.den := by
  have heq : x.interval.low = (4 * x.significand -
    if x.fractionBits = 0 && decide (1 < x.exponentBits) then 1 else 2) * x.quarterUnit := rfl
  have hm := significand_pos hzero
  rw [heq, Nat.cast_mul, cast_quarterUnit, gapBelow]
  split
  · rw [Nat.cast_sub (by omega)]
    push_cast
    ring
  · rw [Nat.cast_sub (by omega)]
    push_cast
    ring

/-- Whether a point of the grid `10 ^ p` lies in an interval. -/
def Interval.contains (i : Interval) (p : ℤ) (c : ℕ) : Bool :=
  let step := i.den * Nat.pow 10 p.toNat
  let scale := Nat.pow 10 (-p).toNat
  if i.closed then decide (i.low * scale ≤ c * step ∧ c * step ≤ i.high * scale)
  else decide (i.low * scale < c * step ∧ c * step < i.high * scale)

/-- The last point of the grid `10 ^ p` up to the value of an interval. -/
def Interval.floor (i : Interval) (p : ℤ) : ℕ :=
  i.value * Nat.pow 10 (-p).toNat / (i.den * Nat.pow 10 p.toNat)

/-- A power of ten as the quotient of two natural numbers. -/
theorem cast_ten_pow_toNat (p : ℤ) :
    ((Nat.pow 10 p.toNat : ℕ) : ℚ) = 10 ^ p * (Nat.pow 10 (-p).toNat : ℕ) := by
  have hpow : ∀ k : ℕ, ((Nat.pow 10 k : ℕ) : ℚ) = 10 ^ k := fun k => Nat.cast_pow 10 k
  rw [hpow, hpow]
  rcases le_total 0 p with hp | hp
  · obtain ⟨k, rfl⟩ := Int.eq_ofNat_of_zero_le hp
    simp
  · obtain ⟨k, rfl⟩ : ∃ k : ℕ, p = -k := ⟨(-p).toNat, by omega⟩
    simp

section grid

variable {i : Interval} {c n : ℕ} {a : ℚ}

/-- The scale of the grid is positive. -/
theorem Interval.scale_pos (hden : 0 < i.den) (p : ℤ) :
    (0 : ℚ) < i.den * (Nat.pow 10 (-p).toNat : ℕ) := by
  exact_mod_cast Nat.mul_pos hden (Nat.pow_pos (by decide))

/-- A point of the grid, on the scale. -/
theorem Interval.cast_grid (i : Interval) (p : ℤ) (c : ℕ) :
    ((c * (i.den * Nat.pow 10 p.toNat) : ℕ) : ℚ) =
      c * 10 ^ p * (i.den * (Nat.pow 10 (-p).toNat : ℕ)) := by
  rw [Nat.cast_mul, Nat.cast_mul, cast_ten_pow_toNat]
  ring

/-- A number over the denominator of the interval, on the scale. -/
theorem Interval.cast_scale (hn : (n : ℚ) = a * i.den) (p : ℤ) :
    ((n * Nat.pow 10 (-p).toNat : ℕ) : ℚ) = a * (i.den * (Nat.pow 10 (-p).toNat : ℕ)) := by
  rw [Nat.cast_mul, hn, mul_assoc]

/-- A number is compared on the scale with a point of the grid above it. -/
theorem Interval.le_grid_iff (hden : 0 < i.den) (hn : (n : ℚ) = a * i.den) (p : ℤ) (c : ℕ) :
    n * Nat.pow 10 (-p).toNat ≤ c * (i.den * Nat.pow 10 p.toNat) ↔ a ≤ c * 10 ^ p := by
  rw [← Nat.cast_le (α := ℚ), cast_grid, cast_scale hn, mul_le_mul_iff_left₀ (scale_pos hden p)]

/-- A number is compared on the scale with a point of the grid below it. -/
theorem Interval.grid_le_iff (hden : 0 < i.den) (hn : (n : ℚ) = a * i.den) (p : ℤ) (c : ℕ) :
    c * (i.den * Nat.pow 10 p.toNat) ≤ n * Nat.pow 10 (-p).toNat ↔ c * 10 ^ p ≤ a := by
  rw [← Nat.cast_le (α := ℚ), cast_grid, cast_scale hn, mul_le_mul_iff_left₀ (scale_pos hden p)]

end grid

/-- A point of the grid lies in the interval exactly if it rounds to the number. -/
theorem contains_interval_iff (hzero : x.isZero = false) (p : ℤ) (c : ℕ) :
    x.interval.contains p c = true ↔ RoundsTo (c * 10 ^ p) x := by
  have hden := x.interval_den_pos
  have hle := Interval.le_grid_iff hden (interval_low hzero) p c
  have hge := Interval.grid_le_iff hden x.interval_high p c
  have hlt := (Interval.grid_le_iff hden (interval_low hzero) p c).not
  have hgt := (Interval.le_grid_iff hden x.interval_high p c).not
  rw [not_le, not_le] at hlt hgt
  have hclosed : x.interval.closed = (x.significand % 2 == 0) := rfl
  rw [Interval.contains, hclosed]
  split
  next heven =>
    rw [beq_iff_eq] at heven
    rw [decide_eq_true_eq, hle, hge]
    exact ⟨fun h => ⟨h.1, h.2, fun hodd => by omega⟩, fun h => ⟨h.low, h.high⟩⟩
  next hodd =>
    rw [beq_iff_eq] at hodd
    rw [decide_eq_true_eq, hlt, hgt]
    exact ⟨fun h => ⟨h.1.le, h.2.le, fun _ => h⟩, fun h => h.odd (by omega)⟩

end interval

/-! ## The decimal order -/

/-- As many leading zeros are found as are needed to bring the quotient to a tenth at least. -/
theorem leadingZeros_spec {den : ℕ} (n num : ℕ) (h : den ≤ num * 10 ^ n) :
    den ≤ num * 10 ^ (leadingZeros den n num + 1) := by
  induction n generalizing num with
  | zero =>
    rw [leadingZeros]
    omega
  | succ n ih =>
    rw [leadingZeros]
    split
    next hle => simpa using hle
    next =>
      have := ih (num * 10) (by rw [mul_assoc, ← pow_succ']; exact h)
      rwa [mul_assoc, ← pow_succ'] at this

/-- The power of ten one below the decimal order of a quotient is no greater than the quotient. -/
theorem zpow_decimalOrder_le {num den : ℕ} (hden : 0 < den) (h : den ≤ num * 10 ^ 400) :
    (10 : ℚ) ^ (decimalOrder num den - 1) ≤ num / den := by
  have hden' : (0 : ℚ) < den := by exact_mod_cast hden
  rw [decimalOrder]
  split
  next hle =>
    have hpos : 0 < num / den := Nat.div_pos hle hden
    have hlen : 0 < (Nat.toDigits 10 (num / den)).length := Nat.length_toDigits_pos
    calc (10 : ℚ) ^ (((Nat.toDigits 10 (num / den)).length : ℤ) - 1)
        = (10 ^ ((Nat.toDigits 10 (num / den)).length - 1) : ℕ) := by
          rw [← Nat.cast_pred hlen, zpow_natCast]
          push_cast
          rfl
      _ ≤ (num / den : ℕ) := by exact_mod_cast pow_le_of_length_toDigits hpos
      _ ≤ num / den := Nat.cast_div_le
  next =>
    have hspec := leadingZeros_spec 400 num h
    rw [le_div_iff₀ hden', ← neg_add', ← Nat.cast_succ, zpow_neg, zpow_natCast,
      inv_mul_le_iff₀ (by positivity), mul_comm]
    exact_mod_cast hspec

/-! ## Hits on the grids -/

namespace Interval

variable {i : Interval}

/-- The point of a grid that is chosen, in terms of the two points around the value. -/
theorem onGrid?_eq (i : Interval) (p : ℤ) :
    i.onGrid? p =
      match i.contains p (i.floor p), i.contains p (i.floor p + 1) with
      | true, true =>
        some ⟨if 2 * (i.value * Nat.pow 10 (-p).toNat % (i.den * Nat.pow 10 p.toNat)) <
          i.den * Nat.pow 10 p.toNat then i.floor p else i.floor p + 1, p⟩
      | true, false => some ⟨i.floor p, p⟩
      | false, true => some ⟨i.floor p + 1, p⟩
      | false, false => none :=
  rfl

/-- The point that is chosen lies in the interval. -/
theorem contains_of_onGrid? {p : ℤ} {d : Decimal} (h : i.onGrid? p = some d) :
    i.contains d.exponent d.digits = true := by
  rw [onGrid?_eq] at h
  split at h
  next hfloor hceil =>
    cases h
    dsimp only
    split
    · exact hfloor
    · exact hceil
  next hfloor _ => cases h; exact hfloor
  next _ hceil => cases h; exact hceil
  next => cases h

/-- A point is chosen if the one above the value lies in the interval. -/
theorem onGrid?_isSome {p : ℤ} (h : i.contains p (i.floor p + 1) = true) :
    (i.onGrid? p).isSome = true := by
  rw [onGrid?_eq, h]
  cases i.contains p (i.floor p) <;> rfl

/-- The search for a hit answers one, if there is any on the grids it tries. -/
theorem contains_firstHit {order : ℤ} {left n : ℕ}
    (h : ∃ k < left, (i.onGrid? (order - (n + k : ℕ))).isSome = true) :
    i.contains (i.firstHit order left n).exponent (i.firstHit order left n).digits = true := by
  induction left generalizing n with
  | zero =>
    obtain ⟨k, hk, -⟩ := h
    exact absurd hk (Nat.not_lt_zero k)
  | succ left ih =>
    rw [firstHit]
    split
    next d hd => exact contains_of_onGrid? hd
    next hnone =>
      obtain ⟨k, hk, hhit⟩ := h
      cases k with
      | zero => simp [hnone] at hhit
      | succ k =>
        refine ih ⟨k, by omega, ?_⟩
        rw [Nat.add_right_comm, Nat.add_assoc]
        exact hhit

end Interval

/-! ## The shortest decimal -/

section shortest

variable {x : Binary64}

/-- The value of a number rounds to the number. -/
theorem roundsTo_value (x : Binary64) : RoundsTo (x.significand * 2 ^ x.exponent) x := by
  have hgap : 0 < x.gapBelow := by
    rw [gapBelow]
    split <;> norm_num
  have hlow : (x.significand - x.gapBelow) * 2 ^ x.exponent <
      (x.significand * 2 ^ x.exponent : ℚ) := by
    gcongr
    linarith
  have hhigh : (x.significand * 2 ^ x.exponent : ℚ) <
      (x.significand + 1 / 2) * 2 ^ x.exponent := by
    gcongr
    linarith
  exact ⟨hlow.le, hhigh.le, fun _ => ⟨hlow, hhigh⟩⟩

/-- On a grid finer than half a unit in the last place, the first point above a number rounds to
the number. -/
theorem roundsTo_floor_add_one {p : ℤ} (hp : (10 : ℚ) ^ p < 1 / 2 * 2 ^ x.exponent) :
    RoundsTo ((x.interval.floor p + 1 : ℕ) * 10 ^ p) x := by
  have hden := x.interval_den_pos
  have hstep : 0 < x.interval.den * Nat.pow 10 p.toNat :=
    Nat.mul_pos hden (Nat.pow_pos (by decide))
  have hfloor := (Interval.grid_le_iff hden x.interval_value p (x.interval.floor p)).1
    (Nat.div_mul_le_self _ _)
  have hceil := (Interval.grid_le_iff hden x.interval_value p (x.interval.floor p + 1)).not.1
    (not_le.2 (Nat.lt_mul_of_div_lt (Nat.lt_succ_self _) hstep))
  rw [not_le] at hceil
  have hself := x.roundsTo_value
  have hhigh : ((x.interval.floor p + 1 : ℕ) * 10 ^ p : ℚ) <
      (x.significand + 1 / 2) * 2 ^ x.exponent := by
    push_cast
    linarith
  exact ⟨hself.low.trans hceil.le, hhigh.le, fun _ => ⟨hself.low.trans_lt hceil, hhigh⟩⟩

/-- Eighteen digits are enough for every number. -/
theorem zpow_decimalOrder_lt (hzero : x.isZero = false) :
    (10 : ℚ) ^ (decimalOrder x.interval.value x.interval.den - 18) < 1 / 2 * 2 ^ x.exponent := by
  have hden : (0 : ℚ) < x.interval.den := by exact_mod_cast x.interval_den_pos
  have hm : (x.significand : ℚ) < 2 ^ 53 := by exact_mod_cast x.significand_lt
  have hvalue : (x.interval.value / x.interval.den : ℚ) = x.significand * 2 ^ x.exponent := by
    rw [interval_value, mul_div_assoc, div_self hden.ne', mul_one]
  have hfuel : x.interval.den ≤ x.interval.value * 10 ^ 400 := by
    have hten : (10 : ℚ) ^ (-(400 : ℕ) : ℤ) ≤ x.interval.value / x.interval.den := by
      rw [hvalue]
      exact le_trans (zpow_le_zpow_right₀ (by norm_num) (by omega))
        (x.roundsTo_value.zpow_ten_le hzero)
    rw [zpow_neg, zpow_natCast, le_div_iff₀ hden, inv_mul_le_iff₀ (by positivity), mul_comm] at hten
    exact_mod_cast hten
  have horder := zpow_decimalOrder_le x.interval_den_pos hfuel
  rw [hvalue] at horder
  generalize decimalOrder x.interval.value x.interval.den = order at horder ⊢
  -- The significand has at most 53 bits, and `2 ^ 54 < 10 ^ 17`.
  calc (10 : ℚ) ^ (order - 18) = 10 ^ (order - 1) * 10 ^ (-17 : ℤ) := by
        rw [← zpow_add₀ (by norm_num)]
        ring_nf
    _ ≤ x.significand * 2 ^ x.exponent * 10 ^ (-17 : ℤ) := by gcongr
    _ < 2 ^ 53 * 2 ^ x.exponent * 10 ^ (-17 : ℤ) := by gcongr
    _ = 2 ^ 53 * 10 ^ (-17 : ℤ) * 2 ^ x.exponent := by ring
    _ ≤ 1 / 2 * 2 ^ x.exponent := by
        gcongr
        norm_num

/-- The shortest decimal of a number rounds to the number. -/
theorem roundsTo_shortest (hzero : x.isZero = false) : RoundsTo x.shortest.toRat x := by
  have hlast : (x.interval.onGrid?
      (decimalOrder x.interval.value x.interval.den - (1 + 17 : ℕ))).isSome = true :=
    Interval.onGrid?_isSome
      ((contains_interval_iff hzero _ _).2 (roundsTo_floor_add_one (zpow_decimalOrder_lt hzero)))
  rw [shortest, hzero, if_neg Bool.false_ne_true, Decimal.toRat_trim]
  exact (contains_interval_iff hzero _ _).1 (Interval.contains_firstHit ⟨17, by decide, hlast⟩)

end shortest

end Binary64

end Oxidize
