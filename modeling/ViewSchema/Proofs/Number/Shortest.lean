import Mathlib.Algebra.Order.Floor.Semifield
import Mathlib.Data.Rat.Floor
import ViewSchema.Proofs.Number.Neighbourhood

/-!
# Shortest decimals round to their double

The search for the fewest digits always ends with a decimal in the neighbourhood of the double:
seventeen digits make a grid that is finer than the distance to the nearer neighbour.

Main results:

- Theorem `Double.contains_iff`: the values in the neighbourhood of a double round to it.
- Theorem `Double.ratioLog10_le`: the leading power of ten is not above the value.
- Theorem `Double.exists_roundsTo_grid`: every fine grid has a point that rounds to the double.
- Theorem `Double.roundsTo_shortestDigits`: the shortest decimal rounds to the double.
-/

namespace ViewSchema

namespace Double

/-! ## Magnitudes -/

/-- The magnitude of a double. -/
def magnitude (d : Double) : ℚ := d.mantissa * 2 ^ d.exponent

theorem num_div_den (d : Double) : (d.num : ℚ) / d.den = d.magnitude := by
  unfold num den magnitude
  simp only [Nat.pow_eq, Nat.cast_mul, Nat.cast_pow, Nat.cast_ofNat]
  rw [mul_div_assoc, pow_div_pow]

theorem magnitude_eq_quarter (d : Double) : d.magnitude = 4 * d.mantissa * d.quarter := by
  unfold magnitude quarter
  ring

variable {d : Double}

/-! ## Neighbourhoods -/

namespace Neighbourhood

/-- The value that a neighbourhood is about, and its bounds. -/
def center (n : Neighbourhood) : ℚ := n.value / n.den

def left (n : Neighbourhood) : ℚ := n.low / n.den

def right (n : Neighbourhood) : ℚ := n.high / n.den

/-- A multiple of a step lies in a neighbourhood when it is between the bounds. -/
theorem contains_iff {n : Neighbourhood} (hn : 0 < n.den) {c num den : Nat} (hden : 0 < den) :
    n.contains c num den = true ↔
      if n.closed = true then n.left ≤ c * (num / den) ∧ c * (num / den) ≤ n.right
      else n.left < c * (num / den) ∧ c * (num / den) < n.right := by
  have hn' : (0 : ℚ) < n.den := Nat.cast_pos.2 hn
  have hden' : (0 : ℚ) < den := Nat.cast_pos.2 hden
  have hpoint : (c : ℚ) * (num / den) = ((c * num : ℕ) : ℚ) / den := by
    push_cast
    ring
  unfold contains left right
  rw [hpoint, div_le_div_iff₀ hn' hden', div_le_div_iff₀ hden' hn', div_lt_div_iff₀ hn' hden',
    div_lt_div_iff₀ hden' hn']
  norm_cast
  split <;> simp

/-- The greatest multiple of a step that is not above the value. -/
def floor (n : Neighbourhood) (num den : Nat) : Nat := n.value * den / (n.den * num)

/-- What is nearest, from which of the two candidates lie in the neighbourhood. -/
theorem nearest?_eq (n : Neighbourhood) (num den : Nat) :
    n.nearest? num den =
      match n.contains (n.floor num den) num den, n.contains (n.floor num den + 1) num den with
      | true, true => some (roundDiv (n.value * den) (n.den * num))
      | true, false => some (n.floor num den)
      | false, true => some (n.floor num den + 1)
      | false, false => none := by
  unfold nearest? floor
  cases hfloor : n.contains (n.value * den / (n.den * num)) num den <;>
    cases hnext : n.contains (n.value * den / (n.den * num) + 1) num den <;>
    simp [hfloor, hnext]

/-- What is found lies in the neighbourhood. -/
theorem contains_nearest {n : Neighbourhood} {num den c : Nat} (h : n.nearest? num den = some c) :
    n.contains c num den = true := by
  rw [nearest?_eq] at h
  cases hfloor : n.contains (n.floor num den) num den <;>
    cases hnext : n.contains (n.floor num den + 1) num den <;>
    simp only [hfloor, hnext, Option.some.injEq, reduceCtorEq] at h
  · rwa [← h]
  · rwa [← h]
  · rw [← h]
    rcases roundDiv_cases (n.value * den) (n.den * num) with heq | heq
    · rwa [heq]
    · rwa [heq]

/-- Something is found when one of the candidates lies in the neighbourhood. -/
theorem isSome_nearest {n : Neighbourhood} {num den : Nat}
    (h : n.contains (n.floor num den) num den = true ∨
      n.contains (n.floor num den + 1) num den = true) : (n.nearest? num den).isSome = true := by
  rw [nearest?_eq]
  cases hfloor : n.contains (n.floor num den) num den <;>
    cases hnext : n.contains (n.floor num den + 1) num den <;>
    simp_all

/-- The value lies between the candidates. -/
theorem floor_le_center {n : Neighbourhood} (hn : 0 < n.den) {num den : Nat} (hnum : 0 < num)
    (hden : 0 < den) :
    (n.floor num den : ℚ) * (num / den) ≤ n.center ∧
      n.center < (n.floor num den + 1) * (num / den) := by
  have hn' : (0 : ℚ) < n.den := Nat.cast_pos.2 hn
  have hnum' : (0 : ℚ) < num := Nat.cast_pos.2 hnum
  have hden' : (0 : ℚ) < den := Nat.cast_pos.2 hden
  have hfloor : n.floor num den = ⌊n.center / (num / den)⌋₊ := by
    rw [floor, ← Nat.floor_div_eq_div (K := ℚ), center]
    congr 1
    push_cast
    field_simp
  have hstep : (0 : ℚ) < num / den := div_pos hnum' hden'
  have hcenter : 0 ≤ n.center / (num / den) := by
    unfold center
    positivity
  rw [hfloor, ← le_div_iff₀ hstep, ← div_lt_iff₀ hstep]
  exact ⟨Nat.floor_le hcenter, Nat.lt_floor_add_one _⟩

end Neighbourhood

/-- The halfway points of a double bound its neighbourhood. -/
theorem neighbourhood_den_pos (d : Double) : 0 < d.neighbourhood.den :=
  Nat.mul_pos (by decide) d.den_pos

/-- Quarters of the unit over the denominator of the neighbourhood. -/
theorem quarters_div_den (d : Double) (quarters : ℚ) :
    quarters * 2 ^ d.exponent.toNat / d.neighbourhood.den = quarters * d.quarter := by
  have hden : (d.neighbourhood.den : ℚ) = 4 * 2 ^ (-d.exponent).toNat := by
    simp [neighbourhood, den]
  rw [hden, quarter, ← pow_div_pow]
  ring

theorem center_neighbourhood (d : Double) : d.neighbourhood.center = d.magnitude := by
  have hvalue : (d.neighbourhood.value : ℚ) = 4 * d.mantissa * 2 ^ d.exponent.toNat := by
    simp [neighbourhood]
  rw [Neighbourhood.center, hvalue, quarters_div_den, magnitude_eq_quarter]

theorem right_neighbourhood (d : Double) : d.neighbourhood.right = d.upper := by
  have hhigh : (d.neighbourhood.high : ℚ) = (4 * d.mantissa + 2) * 2 ^ d.exponent.toNat := by
    simp [neighbourhood]
  rw [Neighbourhood.right, hhigh, quarters_div_den, upper]

theorem left_neighbourhood (h : 0 < d.mantissa) : d.neighbourhood.left = d.lower := by
  have hgap : d.gapBelow ≤ 4 * d.mantissa := by
    rcases d.gapBelow_cases with hgap | hgap <;> omega
  have hlow : (d.neighbourhood.low : ℚ) =
      (4 * d.mantissa - d.gapBelow) * 2 ^ d.exponent.toNat := by
    have hunfold : d.neighbourhood.low =
        (4 * d.mantissa - d.gapBelow) * 2 ^ d.exponent.toNat := rfl
    rw [hunfold, Nat.cast_mul, Nat.cast_sub hgap]
    push_cast
    rfl
  rw [Neighbourhood.left, hlow, quarters_div_den, lower]

/-- The values in the neighbourhood of a double are those that round to it. -/
theorem contains_iff (h : 0 < d.mantissa) {c num den : Nat} (hden : 0 < den) :
    d.neighbourhood.contains c num den = true ↔ d.RoundsTo (c * (num / den)) := by
  have hclosed : d.neighbourhood.closed = true ↔ d.mantissa % 2 = 0 := by
    simp [neighbourhood]
  rw [Neighbourhood.contains_iff d.neighbourhood_den_pos hden, left_neighbourhood h,
    right_neighbourhood, RoundsTo]
  simp only [hclosed]

/-! ## Fine grids -/

/-- Values strictly between the halfway points round to a double. -/
theorem roundsTo_of_between {x : ℚ} (hlower : d.lower < x) (hupper : x < d.upper) :
    d.RoundsTo x := by
  unfold RoundsTo
  split
  · exact ⟨hlower.le, hupper.le⟩
  · exact ⟨hlower, hupper⟩

/-- A grid with sixteen more digits than the value has a point that rounds to the double, just
below or just above the value. -/
theorem exists_roundsTo_grid (hd : d.Canonical) {step : ℚ} {c : ℕ}
    (hfine : 10 ^ 16 * step ≤ d.magnitude) (hlow : c * step ≤ d.magnitude)
    (hhigh : d.magnitude < (c + 1) * step) :
    d.RoundsTo (c * step) ∨ d.RoundsTo ((c + 1) * step) := by
  have hquarter := d.quarter_pos
  have hmantissa : (d.mantissa : ℚ) < 2 ^ 53 := by exact_mod_cast hd.mantissa_lt
  rw [magnitude_eq_quarter] at hfine hlow hhigh
  rcases d.gapBelow_cases with ⟨hgap, -⟩ | ⟨hgap, hpower, -⟩
  · -- The neighbours are four quarters away on both sides, and the step is shorter.
    have hstep : step < 4 * d.quarter := by
      have hscaled : (d.mantissa : ℚ) * d.quarter < 2 ^ 53 * d.quarter :=
        mul_lt_mul_of_pos_right hmantissa hquarter
      linarith
    by_cases hnear : 4 * d.mantissa * d.quarter - c * step < 2 * d.quarter
    · left
      apply roundsTo_of_between
      · rw [lower, hgap]
        push_cast
        linarith
      · rw [upper]
        linarith
    · right
      apply roundsTo_of_between
      · rw [lower, hgap]
        push_cast
        linarith
      · rw [upper]
        linarith
  · -- At a power of two the step is at most half as long, so that the point above is near.
    have hmantissa' : (d.mantissa : ℚ) = 2 ^ 52 := by exact_mod_cast hpower
    have hstep : step < 2 * d.quarter := by
      rw [hmantissa'] at hfine
      linarith
    right
    apply roundsTo_of_between
    · rw [lower, hgap]
      push_cast
      linarith
    · rw [upper]
      linarith

/-- On such a grid the search succeeds. -/
theorem isSome_nearest_of_fine (hd : d.Canonical) (hm : 0 < d.mantissa) {num den : Nat}
    (hnum : 0 < num) (hden : 0 < den) (hfine : 10 ^ 16 * ((num : ℚ) / den) ≤ d.magnitude) :
    (d.neighbourhood.nearest? num den).isSome = true := by
  obtain ⟨hlow, hhigh⟩ :=
    Neighbourhood.floor_le_center d.neighbourhood_den_pos hnum hden
  rw [center_neighbourhood] at hlow hhigh
  apply Neighbourhood.isSome_nearest
  rw [contains_iff hm hden, contains_iff hm hden]
  push_cast
  exact exists_roundsTo_grid hd hfine hlow hhigh

/-! ## The leading power -/

theorem log2_sub_le_ratioLog2 (num den : Nat) :
    (num.log2 : ℤ) - den.log2 - 1 ≤ ratioLog2 num den := by
  unfold ratioLog2
  dsimp only
  split <;> omega

/-- Powers of ten and two compare as their exponents do in a fixed proportion. -/
theorem ten_pow_le_of_proportion {a b : ℕ} (hb : b ≠ 0) {q k : ℤ} (hproportion : q * b ≤ a * k)
    (hbase : ((10 : ℚ) ^ a) ^ k ≤ (2 ^ b) ^ k) : (10 : ℚ) ^ q ≤ 2 ^ k := by
  have hpowers : ((10 : ℚ) ^ q) ^ b ≤ (2 ^ k) ^ b := by
    calc ((10 : ℚ) ^ q) ^ b = 10 ^ (q * b) := by rw [zpow_mul, zpow_natCast]
      _ ≤ 10 ^ (a * k) := zpow_le_zpow_right₀ (by norm_num) hproportion
      _ = (10 ^ a) ^ k := by rw [zpow_mul, zpow_natCast]
      _ ≤ (2 ^ b) ^ k := hbase
      _ = (2 ^ k) ^ b := by rw [← zpow_natCast, ← zpow_natCast, ← zpow_mul, ← zpow_mul, mul_comm]
  exact (pow_le_pow_iff_left₀ (by positivity) (by positivity) hb).1 hpowers

/-- Near the range of doubles, the estimate of a decimal logarithm is too large by less than
two. -/
theorem ten_pow_le_two_pow {k : ℤ} (hlow : -1100 ≤ k) (hhigh : k ≤ 1100) :
    (10 : ℚ) ^ (Int.fdiv (k * 30103) 100000 - 1) ≤ 2 ^ k := by
  rw [Int.fdiv_eq_ediv_of_nonneg _ (by decide)]
  rcases Int.le_total 0 k with hk | hk
  · -- The logarithm of two is above 59 / 196 and below 28 / 93.
    refine ten_pow_le_of_proportion (a := 59) (b := 196) (by decide) (by omega) ?_
    exact zpow_le_zpow_left₀ hk (by positivity) (by norm_num)
  · refine ten_pow_le_of_proportion (a := 28) (b := 93) (by decide) (by omega) ?_
    obtain ⟨n, rfl⟩ : ∃ n : ℕ, k = -n := ⟨k.natAbs, by omega⟩
    rw [zpow_neg, zpow_neg, zpow_natCast, zpow_natCast]
    exact inv_anti₀ (by positivity) (pow_le_pow_left₀ (by positivity) (by norm_num) n)

/-- The binary logarithms of doubles stay in a small range. -/
theorem ratioLog2_bounds (hd : d.Canonical) (hm : 0 < d.mantissa) :
    -1100 ≤ ratioLog2 d.num d.den ∧ ratioLog2 d.num d.den ≤ 1100 := by
  constructor
  · have hbound := log2_sub_le_ratioLog2 d.num d.den
    have hden : d.den.log2 = (-d.exponent).toNat := Nat.log2_two_pow
    have hleast := hd.least_le
    simp only [minExponent] at hleast
    omega
  · have hle := ratioLog2_le (num_pos hm) d.den_pos
    have hmantissa : (d.mantissa : ℚ) ≤ 2 ^ (53 : ℤ) := by exact_mod_cast hd.mantissa_lt.le
    have hmagnitude : d.magnitude ≤ 2 ^ (1100 : ℤ) := by
      have hexponent : (53 : ℤ) + d.exponent ≤ 1100 := by
        have hgreatest := hd.le_greatest
        simp only [maxExponent] at hgreatest
        omega
      calc d.magnitude ≤ 2 ^ (53 : ℤ) * 2 ^ d.exponent :=
            mul_le_mul_of_nonneg_right hmantissa (by positivity)
        _ = 2 ^ ((53 : ℤ) + d.exponent) := (zpow_add₀ (by norm_num) _ _).symm
        _ ≤ 2 ^ (1100 : ℤ) := zpow_le_zpow_right₀ (by norm_num) hexponent
    rw [num_div_den] at hle
    exact (zpow_le_zpow_iff_right₀ (by norm_num)).1 (hle.trans hmagnitude)

/-- The leading power of ten is not above the value. -/
theorem ratioLog10_le (hd : d.Canonical) (hm : 0 < d.mantissa) :
    (10 : ℚ) ^ ratioLog10 d.num d.den ≤ d.magnitude := by
  have hden := d.den_pos
  rw [← num_div_den]
  unfold ratioLog10
  dsimp only
  simp only [decide_eq_true_eq]
  split
  · rename_i hreached
    exact (pow_le_div_iff (by decide) hden _).1 hreached
  split
  · rename_i hreached
    exact (pow_le_div_iff (by decide) hden _).1 hreached
  · obtain ⟨hlow, hhigh⟩ := ratioLog2_bounds hd hm
    have hexponent : ∀ k : ℤ, k + 1 - 2 = k - 1 := by
      intro k
      omega
    rw [hexponent]
    exact (ten_pow_le_two_pow hlow hhigh).trans (ratioLog2_le (num_pos hm) hden)

/-! ## The search -/

/-- The value of a decimal. -/
def Decimal.value (decimal : Decimal) : ℚ := decimal.digits * 10 ^ decimal.exponent

/-- The search ends in the neighbourhood when one of its grids has a point there. -/
theorem contains_shortestFrom {n : Neighbourhood} {leading : Int} (tries places : Nat)
    {hit : Nat} (hfirst : places ≤ hit) (hlast : hit < places + tries)
    (h : (n.nearest? (Nat.pow 10 (leading - hit).toNat)
      (Nat.pow 10 (-(leading - hit)).toNat)).isSome = true) :
    n.contains (shortestFrom n leading tries places).digits
      (Nat.pow 10 (shortestFrom n leading tries places).exponent.toNat)
      (Nat.pow 10 (-(shortestFrom n leading tries places).exponent).toNat) = true := by
  induction tries generalizing places with
  | zero => omega
  | succ tries ih =>
    rw [shortestFrom]
    split
    · rename_i c hfound
      exact Neighbourhood.contains_nearest hfound
    · rename_i hnone
      have hne : places ≠ hit := by
        rintro rfl
        rw [hnone] at h
        cases h
      exact ih (places + 1) (by omega) (by omega)

/-- The shortest decimal of a double rounds to it. -/
theorem roundsTo_shortestDigits (hd : d.Canonical) (hm : 0 < d.mantissa) :
    d.RoundsTo d.shortestDigits.value := by
  have hpow : ∀ k : Nat, 0 < Nat.pow 10 k := fun k => Nat.pow_pos (by decide)
  have hgrid : ∀ k : ℤ, ((Nat.pow 10 k.toNat : ℕ) : ℚ) / (Nat.pow 10 (-k).toNat : ℕ) = 10 ^ k := by
    intro k
    rw [← pow_div_pow]
    simp
  have hfine : (10 : ℚ) ^ 16 * 10 ^ (ratioLog10 d.num d.den - (16 : ℕ)) ≤ d.magnitude := by
    have hsplit : (10 : ℚ) ^ 16 * 10 ^ (ratioLog10 d.num d.den - (16 : ℕ)) =
        10 ^ ratioLog10 d.num d.den := by
      rw [← zpow_natCast, ← zpow_add₀ (by norm_num)]
      congr 1
      omega
    rw [hsplit]
    exact ratioLog10_le hd hm
  have hhit : (d.neighbourhood.nearest?
      (Nat.pow 10 (ratioLog10 d.num d.den - (16 : ℕ)).toNat)
      (Nat.pow 10 (-(ratioLog10 d.num d.den - (16 : ℕ))).toNat)).isSome = true := by
    apply isSome_nearest_of_fine hd hm (hpow _) (hpow _)
    rwa [hgrid]
  have hcontains := contains_shortestFrom maxDigits 0 (Nat.zero_le 16) (by decide) hhit
  have hrounds := (contains_iff hm (hpow _)).1 hcontains
  rwa [hgrid] at hrounds

/-- Doubles with the same shortest decimal have the same magnitude. -/
theorem eq_of_shortestDigits_value {d d' : Double} (hd : d.Canonical) (hd' : d'.Canonical)
    (hm : 0 < d.mantissa) (hm' : 0 < d'.mantissa)
    (h : d.shortestDigits.value = d'.shortestDigits.value) :
    d.mantissa = d'.mantissa ∧ d.exponent = d'.exponent :=
  (roundsTo_shortestDigits hd hm).unique hd hd' (h ▸ roundsTo_shortestDigits hd' hm')

end Double

end ViewSchema
