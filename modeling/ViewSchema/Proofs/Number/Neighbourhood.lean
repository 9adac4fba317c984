import ViewSchema.Number.Shortest
import ViewSchema.Proofs.Number.Rounding

/-!
# Neighbourhoods of doubles

The values that round to a double lie between the halfway points to its neighbours, and no
value rounds to two doubles.

Main results:

- Definition `Double.RoundsTo`: the values that round to a double.
- Theorem `Double.RoundsTo.unique`: a value rounds to one double at most.
-/

namespace ViewSchema

namespace Double

/-! ## Halfway points -/

/-- How far the lower halfway point lies below a double, in quarters of its unit: at a power
of two the neighbour below is nearer. -/
def gapBelow (d : Double) : Nat :=
  if d.mantissa = 2 ^ (precision - 1) ∧ minExponent < d.exponent then 1 else 2

/-- The unit of a double, a quarter of it. -/
def quarter (d : Double) : ℚ := 2 ^ d.exponent / 4

theorem quarter_pos (d : Double) : 0 < d.quarter := by
  unfold quarter
  positivity

/-- The halfway points to the neighbours of a double. -/
def lower (d : Double) : ℚ := (4 * d.mantissa - d.gapBelow) * d.quarter

def upper (d : Double) : ℚ := (4 * d.mantissa + 2) * d.quarter

/-- Values between the halfway points round to a double, and so do these when its mantissa is
even. -/
def RoundsTo (d : Double) (x : ℚ) : Prop :=
  if d.mantissa % 2 = 0 then d.lower ≤ x ∧ x ≤ d.upper else d.lower < x ∧ x < d.upper

namespace RoundsTo

variable {d d' : Double} {x : ℚ}

theorem lower_le (h : d.RoundsTo x) : d.lower ≤ x := by
  unfold RoundsTo at h
  split at h
  · exact h.1
  · exact h.1.le

theorem le_upper (h : d.RoundsTo x) : x ≤ d.upper := by
  unfold RoundsTo at h
  split at h
  · exact h.2
  · exact h.2.le

/-- A halfway point rounds to the double with the even mantissa. -/
theorem even_of_upper (h : d.RoundsTo d.upper) : d.mantissa % 2 = 0 := by
  by_contra hodd
  rw [RoundsTo, if_neg hodd] at h
  exact lt_irrefl _ h.2

theorem even_of_lower (h : d.RoundsTo d.lower) : d.mantissa % 2 = 0 := by
  by_contra hodd
  rw [RoundsTo, if_neg hodd] at h
  exact lt_irrefl _ h.1

end RoundsTo

/-! ## Doubles one after the other -/

/-- The order of the magnitudes of canonical doubles. -/
def Precedes (d d' : Double) : Prop :=
  d.exponent < d'.exponent ∨ d.exponent = d'.exponent ∧ d.mantissa < d'.mantissa

/-- A power of two is nearer to the double below it than other doubles are. -/
theorem gapBelow_cases (d : Double) :
    (d.gapBelow = 2 ∧ ¬(d.mantissa = 2 ^ (precision - 1) ∧ minExponent < d.exponent)) ∨
      d.gapBelow = 1 ∧ d.mantissa = 2 ^ (precision - 1) ∧ minExponent < d.exponent := by
  unfold gapBelow
  split
  · rename_i hpower
    exact .inr ⟨rfl, hpower⟩
  · rename_i hother
    exact .inl ⟨rfl, hother⟩

/-- In units of the earlier double, its upper halfway point is not above the lower one of the
later double, and the same only if one of the two has an odd mantissa. -/
theorem halfway_le {d d' : Double} (hd : d.Canonical) (hd' : d'.Canonical)
    (h : d.Precedes d') :
    (4 * d.mantissa + 2 : ℤ) ≤
        (4 * d'.mantissa - d'.gapBelow) * 2 ^ (d'.exponent - d.exponent).toNat ∧
      ((4 * d.mantissa + 2 : ℤ) =
          (4 * d'.mantissa - d'.gapBelow) * 2 ^ (d'.exponent - d.exponent).toNat →
        d.mantissa % 2 = 1 ∨ d'.mantissa % 2 = 1) := by
  have hgap := d'.gapBelow_cases
  have hsmall := hd.mantissa_lt
  simp only [precision] at hgap hsmall
  rcases h with hlt | ⟨hexponent, hmantissa⟩
  · -- The later double is above the least exponent, so that its mantissa is full.
    have hleast := hd.least_le
    have hfull : 2 ^ 52 ≤ d'.mantissa := by
      rcases hd'.full with hmin | hfull
      · omega
      · exact hfull
    have hunit : (2 : ℤ) ≤ 2 ^ (d'.exponent - d.exponent).toNat := by
      obtain ⟨k, hk⟩ : ∃ k, (d'.exponent - d.exponent).toNat = k + 1 :=
        ⟨(d'.exponent - d.exponent).toNat - 1, by omega⟩
      have hone : (1 : ℤ) ≤ 2 ^ k := one_le_pow₀ (by norm_num)
      rw [hk, pow_succ]
      omega
    have hstart : (2 ^ 54 - 1 : ℤ) ≤ 4 * d'.mantissa - d'.gapBelow := by omega
    have hproduct : (2 ^ 54 - 1 : ℤ) * 2 ≤
        (4 * d'.mantissa - d'.gapBelow) * 2 ^ (d'.exponent - d.exponent).toNat :=
      mul_le_mul hstart hunit (by norm_num) (by omega)
    constructor <;> omega
  · have hunit : (d'.exponent - d.exponent).toNat = 0 := by omega
    rw [hunit, pow_zero, mul_one]
    constructor <;> omega

/-- Between a double and a later one lies a halfway point, which is nearer to neither of them
only if one has an odd mantissa. -/
theorem upper_le_lower {d d' : Double} (hd : d.Canonical) (hd' : d'.Canonical)
    (h : d.Precedes d') : d.upper ≤ d'.lower ∧
      (d.upper = d'.lower → d.mantissa % 2 = 1 ∨ d'.mantissa % 2 = 1) := by
  have hunit : d'.quarter = 2 ^ (d'.exponent - d.exponent).toNat * d.quarter := by
    have hshift : d'.exponent = ((d'.exponent - d.exponent).toNat : ℤ) + d.exponent := by
      rcases h with hlt | ⟨heq, -⟩ <;> omega
    rw [quarter, quarter, hshift, zpow_add₀ (by norm_num), zpow_natCast]
    simp only [add_sub_cancel_right, Int.toNat_natCast]
    ring
  obtain ⟨hle, hodd⟩ := halfway_le hd hd' h
  have hlower : d'.lower = (((4 * d'.mantissa - d'.gapBelow) *
      2 ^ (d'.exponent - d.exponent).toNat : ℤ) : ℚ) * d.quarter := by
    rw [lower, hunit]
    push_cast
    ring
  have hupper : d.upper = ((4 * d.mantissa + 2 : ℤ) : ℚ) * d.quarter := by
    rw [upper]
    push_cast
    ring
  rw [hlower, hupper]
  constructor
  · exact mul_le_mul_of_nonneg_right (Int.cast_le.2 hle) d.quarter_pos.le
  · intro heq
    exact hodd (Int.cast_injective (mul_right_cancel₀ d.quarter_pos.ne' heq))

/-- A value rounds to one double at most. -/
theorem RoundsTo.unique {d d' : Double} {x : ℚ} (hd : d.Canonical) (hd' : d'.Canonical)
    (h : d.RoundsTo x) (h' : d'.RoundsTo x) :
    d.mantissa = d'.mantissa ∧ d.exponent = d'.exponent := by
  have hapart : ∀ {d d' : Double}, d.Canonical → d'.Canonical → d.RoundsTo x → d'.RoundsTo x →
      ¬d.Precedes d' := by
    intro d d' hd hd' h h' hlt
    obtain ⟨hle, hodd⟩ := upper_le_lower hd hd' hlt
    have hupper : x = d.upper := le_antisymm h.le_upper (hle.trans h'.lower_le)
    have hlower : x = d'.lower := le_antisymm (h.le_upper.trans hle) h'.lower_le
    have heven := (hupper ▸ h).even_of_upper
    have heven' := (hlower ▸ h').even_of_lower
    have := hodd (hupper.symm.trans hlower)
    omega
  have hforward := hapart hd hd' h h'
  have hback := hapart hd' hd h' h
  unfold Precedes at hforward hback
  omega

end Double

end ViewSchema
