import Mathlib.Algebra.Order.Field.Power
import Mathlib.Data.Rat.Cast.Order
import Mathlib.Tactic.FieldSimp
import Mathlib.Tactic.LinearCombination
import Mathlib.Tactic.Positivity
import Mathlib.Tactic.Ring
import ViewSchema.Number.Decimal

/-!
# Rounded doubles are canonical

Every double that is rounded from a quotient, and so every one that is read from a literal, has
a full mantissa unless its exponent is the least one.

Main results:

- Theorem `Double.ratioLog2_le`, `Double.lt_ratioLog2`: the binary logarithm of a quotient.
- Definition `Double.Canonical`: doubles as they are built.
- Theorem `Double.canonical_ofRatio`: rounding a quotient gives a canonical double.
- Theorem `Double.canonical_ofScaled`: so does scaling the significand of a literal.
-/

namespace ViewSchema

/-- Rounding gives one of the two neighbours. -/
theorem roundDiv_cases (num den : Nat) :
    roundDiv num den = num / den ∨ roundDiv num den = num / den + 1 := by
  unfold roundDiv
  dsimp only
  split
  · exact .inr rfl
  · exact .inl rfl

/-- Rounding does not pass a natural number. -/
theorem roundDiv_le {num den bound : Nat} (hden : 0 < den) (h : (num : ℚ) / den < bound) :
    roundDiv num den ≤ bound := by
  rw [div_lt_iff₀ (Nat.cast_pos.2 hden)] at h
  have hbelow : num / den < bound :=
    (Nat.div_lt_iff_lt_mul hden).2 (by exact_mod_cast h)
  rcases roundDiv_cases num den with heq | heq <;> omega

/-- What a quotient is not below, its rounding is not below either. -/
theorem le_roundDiv {num den bound : Nat} (hden : 0 < den) (h : (bound : ℚ) ≤ num / den) :
    bound ≤ roundDiv num den := by
  rw [le_div_iff₀ (Nat.cast_pos.2 hden)] at h
  have habove : bound ≤ num / den :=
    (Nat.le_div_iff_mul_le hden).2 (by exact_mod_cast h)
  rcases roundDiv_cases num den with heq | heq <;> omega

namespace Double

/-! ## Powers as quotients -/

/-- A power with its positive part over its negative part. -/
theorem pow_div_pow (base : ℚ) (k : ℤ) :
    base ^ k.toNat / base ^ (-k).toNat = base ^ k := by
  rcases Int.le_total 0 k with hk | hk
  · have hnone : (-k).toNat = 0 := by omega
    rw [hnone, pow_zero, div_one, ← zpow_natCast, Int.toNat_of_nonneg hk]
  · have hnone : k.toNat = 0 := by omega
    rw [hnone, pow_zero, one_div, ← zpow_natCast, Int.toNat_of_nonneg (by omega), zpow_neg,
      inv_inv]

/-- A power of a base below a quotient, in natural numbers. -/
theorem pow_le_div_iff {base num den : Nat} (hbase : 0 < base) (hden : 0 < den) (k : ℤ) :
    den * Nat.pow base k.toNat ≤ num * Nat.pow base (-k).toNat ↔
      (base : ℚ) ^ k ≤ num / den := by
  have hden' : (0 : ℚ) < den := Nat.cast_pos.2 hden
  have hbelow : (0 : ℚ) < (base : ℚ) ^ (-k).toNat := pow_pos (Nat.cast_pos.2 hbase) _
  rw [← pow_div_pow, div_le_div_iff₀ hbelow hden', mul_comm]
  norm_cast

/-- The binary logarithm of a quotient is not too large. -/
theorem ratioLog2_le {num den : Nat} (hnum : 0 < num) (hden : 0 < den) :
    (2 : ℚ) ^ ratioLog2 num den ≤ num / den := by
  unfold ratioLog2
  dsimp only
  split
  · rename_i hreached
    exact (pow_le_div_iff (by decide) hden _).1 hreached
  · have hbelow : (2 : ℚ) ^ num.log2 ≤ num := by
      exact_mod_cast Nat.log2_self_le hnum.ne'
    have habove : (den : ℚ) ≤ 2 ^ (den.log2 + 1) := by
      exact_mod_cast Nat.lt_log2_self.le
    have hden' : (0 : ℚ) < den := Nat.cast_pos.2 hden
    have hsplit : (2 : ℚ) ^ ((num.log2 : ℤ) - den.log2 - 1) =
        2 ^ num.log2 / 2 ^ (den.log2 + 1) := by
      rw [sub_sub, zpow_sub₀ (by norm_num), zpow_natCast]
      norm_cast
    rw [hsplit]
    exact div_le_div₀ (Nat.cast_nonneg _) hbelow hden' habove

/-- It is not too small either. -/
theorem lt_ratioLog2 {num den : Nat} (hden : 0 < den) :
    (num : ℚ) / den < 2 ^ (ratioLog2 num den + 1) := by
  unfold ratioLog2
  dsimp only
  split
  · have habove : (num : ℚ) < 2 ^ (num.log2 + 1) := by
      exact_mod_cast Nat.lt_log2_self
    have hbelow : (2 : ℚ) ^ den.log2 ≤ den := by
      exact_mod_cast Nat.log2_self_le hden.ne'
    have hsplit : (2 : ℚ) ^ ((num.log2 : ℤ) - den.log2 + 1) =
        2 ^ (num.log2 + 1) / 2 ^ den.log2 := by
      rw [sub_add_eq_add_sub, zpow_sub₀ (by norm_num), zpow_natCast]
      norm_cast
    rw [hsplit]
    exact div_lt_div₀ habove hbelow (by positivity) (by positivity)
  · rename_i hmissed
    rw [sub_add_cancel]
    by_contra hle
    exact hmissed ((pow_le_div_iff (by decide) hden _).2 (not_lt.1 hle))

/-! ## Canonical doubles -/

/-- Doubles as they are built: the mantissa is full unless the exponent is the least one. -/
structure Canonical (d : Double) : Prop where
  mantissa_lt : d.mantissa < 2 ^ precision
  least_le : minExponent ≤ d.exponent
  le_greatest : d.exponent ≤ maxExponent
  full : d.exponent = minExponent ∨ 2 ^ (precision - 1) ≤ d.mantissa

namespace Canonical

variable {d : Double}

/-- Both zeros are canonical. -/
theorem zero (negative : Bool) : (Double.zero negative).Canonical :=
  ⟨by simp [Double.zero, precision], le_rfl, by simp [Double.zero, minExponent, maxExponent],
    .inl rfl⟩

/-- The sign does not matter. -/
theorem withSign (h : d.Canonical) (negative : Bool) : Canonical { d with negative } :=
  ⟨h.mantissa_lt, h.least_le, h.le_greatest, h.full⟩

end Canonical

/-- The quotient that is rounded to a mantissa, at an exponent. -/
theorem scaled_quotient (num den : Nat) (exponent : ℤ) :
    ((num * Nat.pow 2 (-exponent).toNat : ℕ) : ℚ) / (den * Nat.pow 2 exponent.toNat : ℕ) =
      num / den / 2 ^ exponent := by
  rw [← pow_div_pow]
  push_cast
  simp only [Nat.pow_eq]
  push_cast
  field_simp

/-- The exponent that a quotient is rounded at. -/
def ratioExponent (num den : Nat) : Int :=
  max (ratioLog2 num den - (precision - 1 : Nat)) minExponent

/-- The mantissa that a quotient is rounded to, before a carry. -/
def ratioMantissa (num den : Nat) : Nat :=
  roundDiv (num * Nat.pow 2 (-ratioExponent num den).toNat)
    (den * Nat.pow 2 (ratioExponent num den).toNat)

/-- A quotient rounded, whatever its exponent. A carry leaves the least full mantissa. -/
def rounded (negative : Bool) (num den : Nat) : Double :=
  if ratioMantissa num den = Nat.pow 2 precision then
    ⟨negative, Nat.pow 2 (precision - 1), ratioExponent num den + 1⟩
  else ⟨negative, ratioMantissa num den, ratioExponent num den⟩

section Rounded

variable {negative : Bool} {num den : Nat}

/-- A quotient that is not zero is rounded, unless it is beyond the largest exponent. -/
theorem ofRatio_eq (hnum : num ≠ 0) :
    ofRatio negative num den =
      if maxExponent < (rounded negative num den).exponent then none
      else some (rounded negative num den) := by
  rw [ofRatio, if_neg hnum]
  rfl

/-- A rounded mantissa has no more bits than there are, but for the one power of two above. -/
theorem ratioMantissa_le (hden : 0 < den) : ratioMantissa num den ≤ 2 ^ precision := by
  refine roundDiv_le (Nat.mul_pos hden (Nat.pow_pos (by decide))) ?_
  rw [scaled_quotient, div_lt_iff₀ (by positivity)]
  push_cast
  rw [← zpow_natCast, ← zpow_add₀ (by norm_num)]
  refine (lt_ratioLog2 hden).trans_le (zpow_le_zpow_right₀ (by norm_num) ?_)
  simp only [ratioExponent, precision]
  omega

/-- Above the least exponent a rounded mantissa has all its bits. -/
theorem le_ratioMantissa (hnum : 0 < num) (hden : 0 < den)
    (habove : minExponent < ratioExponent num den) :
    2 ^ (precision - 1) ≤ ratioMantissa num den := by
  refine le_roundDiv (Nat.mul_pos hden (Nat.pow_pos (by decide))) ?_
  rw [scaled_quotient, le_div_iff₀ (by positivity)]
  push_cast
  rw [← zpow_natCast, ← zpow_add₀ (by norm_num)]
  refine (zpow_le_zpow_right₀ (by norm_num) ?_).trans (ratioLog2_le hnum hden)
  simp only [ratioExponent, precision] at habove ⊢
  omega

/-- A mantissa that has been carried over is below the power of two above. -/
theorem rounded_mantissa_lt (hden : 0 < den) :
    (rounded negative num den).mantissa < 2 ^ precision := by
  unfold rounded
  split
  · exact Nat.pow_lt_pow_right (by decide) (by decide)
  · rename_i hcarry
    dsimp only
    exact lt_of_le_of_ne (ratioMantissa_le hden) hcarry

/-- A carry makes the exponent larger. -/
theorem rounded_exponent :
    (rounded negative num den).exponent = ratioExponent num den ∨
      (rounded negative num den).exponent = ratioExponent num den + 1 := by
  unfold rounded
  split
  · exact .inr rfl
  · exact .inl rfl

/-- The mantissa is full above the least exponent. -/
theorem rounded_full (hnum : 0 < num) (hden : 0 < den) :
    (rounded negative num den).exponent = minExponent ∨
      2 ^ (precision - 1) ≤ (rounded negative num den).mantissa := by
  have hleast : minExponent ≤ ratioExponent num den := le_max_right _ _
  unfold rounded
  split
  · exact .inr le_rfl
  · dsimp only
    rcases hleast.eq_or_lt with heq | hlt
    · exact .inl heq.symm
    · exact .inr (le_ratioMantissa hnum hden hlt)

/-- Rounding a quotient gives a canonical double. -/
theorem canonical_ofRatio (hden : 0 < den) {d : Double}
    (h : ofRatio negative num den = some d) : d.Canonical := by
  by_cases hnum : num = 0
  · rw [ofRatio, if_pos hnum] at h
    cases h
    exact .zero negative
  rw [ofRatio_eq hnum] at h
  split at h
  · cases h
  rename_i hfits
  cases h
  have hleast : minExponent ≤ ratioExponent num den := le_max_right _ _
  refine ⟨rounded_mantissa_lt hden, ?_, not_lt.1 hfits, rounded_full (Nat.pos_of_ne_zero hnum) hden⟩
  rcases @rounded_exponent negative num den with heq | heq <;> omega

end Rounded

/-! ## Literals -/

section Literals

variable {d e result : Double}

/-- Denominators are positive. -/
theorem den_pos (d : Double) : 0 < d.den := Nat.pow_pos (by decide)

/-- The numerator of a value that is not zero is positive. -/
theorem num_pos (h : 0 < d.mantissa) : 0 < d.num := Nat.mul_pos h (Nat.pow_pos (by decide))

/-- Natural numbers are rounded to canonical doubles. -/
theorem canonical_ofNat (n : Nat) : (ofNat n).Canonical := by
  unfold ofNat
  cases h : ofRatio false n 1 with
  | none => exact .zero false
  | some d => exact canonical_ofRatio Nat.one_pos h

/-- Products are canonical. -/
theorem canonical_mul? (h : d.mul? e = some result) : result.Canonical :=
  canonical_ofRatio (Nat.mul_pos d.den_pos e.den_pos) h

/-- Quotients are canonical. -/
theorem canonical_div? (he : 0 < e.mantissa) (h : d.div? e = some result) :
    result.Canonical :=
  canonical_ofRatio (Nat.mul_pos d.den_pos (num_pos he)) h

/-- A natural number that stays below the largest double is not rounded to zero. -/
theorem ofNat_pos {n : Nat} (hpos : 0 < n) (hbound : n < 2 ^ 1023) : 0 < (ofNat n).mantissa := by
  have hlow : (0 : ℤ) < ratioLog2 n 1 + 1 := by
    have hone : (2 : ℚ) ^ (0 : ℤ) < 2 ^ (ratioLog2 n 1 + 1) := by
      refine lt_of_le_of_lt ?_ (lt_ratioLog2 Nat.one_pos)
      simpa using (by exact_mod_cast hpos : (1 : ℚ) ≤ n)
    exact (zpow_lt_zpow_iff_right₀ (by norm_num)).1 hone
  have hhigh : ratioLog2 n 1 < 1023 := by
    have hpower : (2 : ℚ) ^ ratioLog2 n 1 < 2 ^ (1023 : ℤ) := by
      refine (ratioLog2_le hpos Nat.one_pos).trans_lt ?_
      simpa using (by exact_mod_cast hbound : (n : ℚ) < 2 ^ 1023)
    exact (zpow_lt_zpow_iff_right₀ (by norm_num)).1 hpower
  have hexponent : ratioExponent n 1 = ratioLog2 n 1 - 52 := by
    simp only [ratioExponent, precision, minExponent]
    omega
  have hfits : ¬maxExponent < (rounded false n 1).exponent := by
    simp only [maxExponent]
    rcases @rounded_exponent false n 1 with heq | heq <;> omega
  rw [ofNat, ofRatio_eq hpos.ne', if_neg hfits, Option.getD_some]
  rcases @rounded_full false n 1 hpos Nat.one_pos with hleast | hfull
  · simp only [minExponent] at hleast
    rcases @rounded_exponent false n 1 with heq | heq <;> omega
  · exact lt_of_lt_of_le (by decide) hfull

/-- No power of ten that is applied in one step vanishes or overflows. -/
theorem powerOfTen_pos {k : Nat} (h : k ≤ largestPower) : 0 < (powerOfTen k).mantissa := by
  have hlargest : 0 < (powerOfTen 308).mantissa := by decide +kernel
  have hsmaller : 10 ^ (largestPower - 1) < 2 ^ 1023 := by decide +kernel
  rcases h.eq_or_lt with rfl | hlt
  · exact hlargest
  · have hle : 10 ^ k ≤ 10 ^ (largestPower - 1) :=
      Nat.pow_le_pow_right (by decide) (Nat.le_pred_of_lt hlt)
    exact ofNat_pos (Nat.pow_pos (by decide)) (hle.trans_lt hsmaller)

/-- A step of scaling down keeps a double canonical, also where it is given up. -/
theorem canonical_scaleStep (hd : d.Canonical) {k : Nat} (h : k ≤ largestPower) :
    ((d.div? (powerOfTen k)).getD d).Canonical := by
  cases hquotient : d.div? (powerOfTen k) with
  | none => exact hd
  | some quotient => exact canonical_div? (powerOfTen_pos h) hquotient

/-- Dividing by powers of ten in steps gives a canonical double. -/
theorem canonical_scaleDown (hd : d.Canonical) (k : Nat) : (scaleDown d k).Canonical := by
  fun_induction scaleDown d k with
  | case1 d k hsmall => exact canonical_scaleStep hd hsmall
  | case2 d k _ _ => exact hd
  | case3 d k _ _ ih => exact ih (canonical_scaleStep hd le_rfl)

/-- Scaling a significand gives a canonical double. -/
theorem canonical_ofScaled {negative : Bool} {significand : Nat} {exponent : Int}
    (h : ofScaled negative significand exponent = some result) : result.Canonical := by
  have hmagnitude := canonical_ofNat significand
  obtain ⟨scaled, hscaled, rfl⟩ := Option.map_eq_some_iff.1 h
  refine Canonical.withSign ?_ negative
  split at hscaled
  · cases hscaled
    exact canonical_scaleDown hmagnitude _
  · split at hscaled
    · exact canonical_mul? hscaled
    · split at hscaled
      · cases hscaled
        exact hmagnitude
      · cases hscaled

end Literals

end Double

end ViewSchema
