import Mathlib.Data.List.TakeWhile
import Oxidize.Proofs.Grammar.Expression
import Oxidize.Proofs.Number.Shortest

/-!
# Numerals

The text that is written for a number is one numeral of the emitted source, which stands for that
number: `Binary64.text_spells` and `Binary64.numeral?_text`.
-/

namespace Oxidize

namespace Source

/-! ## Digits -/

section digits

variable {whole fraction : List Char}

/-- Digits are one token. -/
theorem spells_whole (hne : whole ≠ []) (hwhole : ∀ c ∈ whole, c.isDigit = true) :
    Spells whole [.number (String.ofList whole)] := by
  obtain ⟨c, cs, rfl⟩ := List.exists_cons_of_ne_nil hne
  obtain ⟨hc, hcs⟩ := List.forall_mem_cons.1 hwhole
  exact spells_digits hc hcs

/-- Digits with a point between them are one token. -/
theorem spells_point (hne : whole ≠ []) (hwhole : ∀ c ∈ whole, c.isDigit = true)
    (hne' : fraction ≠ []) (hfraction : ∀ c ∈ fraction, c.isDigit = true) :
    Spells (whole ++ '.' :: fraction) [.number (String.ofList (whole ++ '.' :: fraction))] := by
  obtain ⟨c, cs, rfl⟩ := List.exists_cons_of_ne_nil hne
  obtain ⟨hc, hcs⟩ := List.forall_mem_cons.1 hwhole
  obtain ⟨d, ds, rfl⟩ := List.exists_cons_of_ne_nil hne'
  obtain ⟨hd, hds⟩ := List.forall_mem_cons.1 hfraction
  exact spells_fraction hc hcs hd hds

/-- Digits are read as a number. -/
theorem numeral?_whole (hwhole : ∀ c ∈ whole, c.isDigit = true) :
    numeral? (String.ofList whole) = Binary64.ofDecimal? false (Nat.ofDigitChars 10 whole 0) 0 := by
  have htake : whole.takeWhile Char.isDigit = whole := List.takeWhile_eq_self_iff.2 hwhole
  have hdrop : whole.dropWhile Char.isDigit = [] := List.dropWhile_eq_nil_iff.2 hwhole
  rw [numeral?, String.toList_ofList, htake, hdrop]

/-- Digits with a point between them are read as a number. -/
theorem numeral?_point (hwhole : ∀ c ∈ whole, c.isDigit = true)
    (hfraction : ∀ c ∈ fraction, c.isDigit = true) :
    numeral? (String.ofList (whole ++ '.' :: fraction)) =
      Binary64.ofDecimal? false (Nat.ofDigitChars 10 (whole ++ fraction) 0) (-fraction.length) := by
  have htake : (whole ++ '.' :: fraction).takeWhile Char.isDigit = whole := by
    rw [List.takeWhile_append_of_pos hwhole]
    simp
  have hdrop : (whole ++ '.' :: fraction).dropWhile Char.isDigit = '.' :: fraction := by
    rw [List.dropWhile_append_of_pos hwhole]
    simp
  have hall : fraction.all Char.isDigit = true := List.all_eq_true.2 hfraction
  rw [numeral?, String.toList_ofList, htake, hdrop]
  simp only [hall, if_true]

end digits

end Source

open Source

/-! ## Positional notation -/

/-- A digit string with the value of a decimal, in whole. -/
structure Decimal.IsWhole (d : Decimal) (ds : List Char) : Prop where
  ne_nil : ds ≠ []
  isDigit : ∀ c ∈ ds, c.isDigit = true
  value : (Nat.ofDigitChars 10 ds 0 : ℚ) = d.toRat

/-- Two digit strings with the value of a decimal, before and after the point. -/
structure Decimal.IsPoint (d : Decimal) (whole fraction : List Char) : Prop where
  whole_ne_nil : whole ≠ []
  fraction_ne_nil : fraction ≠ []
  isDigit_whole : ∀ c ∈ whole, c.isDigit = true
  isDigit_fraction : ∀ c ∈ fraction, c.isDigit = true
  value : (Nat.ofDigitChars 10 (whole ++ fraction) 0 * 10 ^ (-fraction.length : ℤ) : ℚ) = d.toRat

namespace Decimal

variable {d : Decimal} {k : ℕ}

/-- The digits of a decimal are digits. -/
theorem isDigit_of_mem_digits {c : Char} (hc : c ∈ Nat.toDigits 10 d.digits) : c.isDigit = true :=
  Nat.isDigit_of_mem_toDigits (by decide) (by decide) hc

/-- Zeros are digits. -/
theorem isDigit_of_mem_replicate {c : Char} (hc : c ∈ List.replicate k '0') : c.isDigit = true := by
  rw [(List.mem_replicate.1 hc).2]
  rfl

/-- Zeros after the digits, for an exponent that is not negative. -/
theorem isWhole_of_exponent_eq (hk : d.exponent = k) :
    d.IsWhole (Nat.toDigits 10 d.digits ++ List.replicate k '0') where
  ne_nil := by simp [Nat.toDigits_ne_nil]
  isDigit c hc := (List.mem_append.1 hc).elim isDigit_of_mem_digits isDigit_of_mem_replicate
  value := by
    rw [Nat.ofDigitChars_append, Nat.ofDigitChars_ten_toDigits, Nat.ofDigitChars_replicate_zero,
      toRat, hk, zpow_natCast]
    push_cast
    ring

/-- Zeros before the digits, all of which come after the point. -/
theorem isPoint_of_length_le (hk : d.exponent = -k)
    (hlen : (Nat.toDigits 10 d.digits).length ≤ k) :
    d.IsPoint ['0'] (List.replicate (k - (Nat.toDigits 10 d.digits).length) '0' ++
      Nat.toDigits 10 d.digits) where
  whole_ne_nil := by simp
  fraction_ne_nil := by simp [Nat.toDigits_ne_nil]
  isDigit_whole := by simp
  isDigit_fraction c hc := (List.mem_append.1 hc).elim isDigit_of_mem_replicate isDigit_of_mem_digits
  value := by
    rw [List.length_append, List.length_replicate, Nat.sub_add_cancel hlen, toRat, hk]
    congr 2
    rw [Nat.ofDigitChars_append, Nat.ofDigitChars_append, Nat.ofDigitChars_replicate_zero]
    exact Nat.ofDigitChars_ten_toDigits

/-- The point between the digits. -/
theorem isPoint_of_lt_length (hk : d.exponent = -k) (hpos : 0 < k)
    (hlen : k < (Nat.toDigits 10 d.digits).length) :
    d.IsPoint ((Nat.toDigits 10 d.digits).take ((Nat.toDigits 10 d.digits).length - k))
      ((Nat.toDigits 10 d.digits).drop ((Nat.toDigits 10 d.digits).length - k)) where
  whole_ne_nil := by
    rw [← List.length_pos_iff, List.length_take]
    omega
  fraction_ne_nil := by
    rw [← List.length_pos_iff, List.length_drop]
    omega
  isDigit_whole c hc := isDigit_of_mem_digits (List.mem_of_mem_take hc)
  isDigit_fraction c hc := isDigit_of_mem_digits (List.mem_of_mem_drop hc)
  value := by
    rw [List.take_append_drop, Nat.ofDigitChars_ten_toDigits, List.length_drop, toRat, hk]
    congr 3
    omega

/-- A decimal in positional notation is digits, or digits with a point between them, of its value. -/
theorem positional_cases (d : Decimal) :
    (∃ ds, d.positional = String.ofList ds ∧ d.IsWhole ds) ∨
      ∃ whole fraction, d.positional = String.ofList (whole ++ '.' :: fraction) ∧
        d.IsPoint whole fraction := by
  rw [positional]
  simp only
  split
  next he =>
    obtain ⟨k, hk⟩ := Int.eq_ofNat_of_zero_le he
    rw [hk, Int.toNat_natCast]
    exact .inl ⟨_, rfl, isWhole_of_exponent_eq hk⟩
  next he =>
    obtain ⟨k, hk⟩ : ∃ k : ℕ, d.exponent = -k := ⟨(-d.exponent).toNat, by omega⟩
    rw [hk, neg_neg, Int.toNat_natCast]
    split
    next hlen => exact .inr ⟨['0'], _, by simp, isPoint_of_length_le hk hlen⟩
    next hlen => exact .inr ⟨_, _, rfl, isPoint_of_lt_length hk (by omega) (by omega)⟩

end Decimal

/-- Positional notation is one numeral. -/
theorem Decimal.positional_spells (d : Decimal) :
    Spells d.positional.toList [.number d.positional] := by
  rcases d.positional_cases with ⟨ds, heq, h⟩ | ⟨whole, fraction, heq, h⟩
  · rw [heq, String.toList_ofList]
    exact spells_whole h.ne_nil h.isDigit
  · rw [heq, String.toList_ofList]
    exact spells_point h.whole_ne_nil h.isDigit_whole h.fraction_ne_nil h.isDigit_fraction

/-- Positional notation stands for the number that the decimal rounds to. -/
theorem Decimal.numeral?_positional {d : Decimal} {x : Binary64} (hfinite : x.isFinite = true)
    (hsign : x.isNegative = false) (hzero : x.isZero = false) (h : Binary64.RoundsTo d.toRat x) :
    numeral? d.positional = some x := by
  rcases d.positional_cases with ⟨ds, heq, hd⟩ | ⟨whole, fraction, heq, hd⟩
  · rw [heq, numeral?_whole hd.isDigit]
    refine Binary64.ofDecimal?_eq_some hfinite hsign hzero ?_
    rwa [zpow_zero, mul_one, hd.value]
  · rw [heq, numeral?_point hd.isDigit_whole hd.isDigit_fraction]
    refine Binary64.ofDecimal?_eq_some hfinite hsign hzero ?_
    rwa [hd.value]

/-! ## The text of a number -/

namespace Binary64

variable {x : Binary64}

/-- The text of a positive number is its shortest decimal in positional notation. -/
theorem text_eq_positional (hfinite : x.isFinite = true) (hsign : x.isNegative = false)
    (hzero : x.isZero = false) : x.text = x.shortest.positional := by
  have hnan : x.isNaN = false := by
    rw [isFinite, bne_iff_ne] at hfinite
    simp [isNaN, hfinite]
  simp [text, hnan, hfinite, hsign, hzero]

/-- The text of zero has no sign. -/
theorem text_eq_zero (hzero : x.isZero = true) : x.text = "0" := by
  have hbits : x.exponentBits = 0 := by
    rw [isZero, Bool.and_eq_true, beq_iff_eq] at hzero
    exact hzero.1
  simp [text, isNaN, isFinite, hbits, hzero]

/-- The number without the sign of a zero, which no numeral shows. -/
def unsignedZero (x : Binary64) : Binary64 :=
  if x.isZero then zero false else x

/-- The text of a number that is not negative is one numeral. -/
theorem text_spells (hfinite : x.isFinite = true) (hsign : x.isZero = true ∨ x.isNegative = false) :
    Spells x.text.toList [.number x.text] := by
  cases hzero : x.isZero with
  | true =>
    rw [text_eq_zero hzero]
    exact spells_digits rfl nofun
  | false =>
    rw [hzero] at hsign
    rw [text_eq_positional hfinite (hsign.resolve_left Bool.false_ne_true) hzero]
    exact x.shortest.positional_spells

/-- The text of a number that is not negative stands for that number. -/
theorem numeral?_text (hfinite : x.isFinite = true)
    (hsign : x.isZero = true ∨ x.isNegative = false) : numeral? x.text = some x.unsignedZero := by
  cases hzero : x.isZero with
  | true =>
    rw [text_eq_zero hzero, unsignedZero, if_pos hzero]
    rfl
  | false =>
    rw [hzero] at hsign
    have hsign := hsign.resolve_left Bool.false_ne_true
    rw [text_eq_positional hfinite hsign hzero, unsignedZero, hzero, if_neg Bool.false_ne_true]
    exact Decimal.numeral?_positional hfinite hsign hzero (roundsTo_shortest hzero)

end Binary64

end Oxidize
