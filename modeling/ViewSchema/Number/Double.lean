/-!
# Binary floating point numbers

Finite double precision numbers as exact dyadic values, with the one rounding
rule that every operation shares: the nearest representable value, a tie going
to the even mantissa.

Main definitions:

- `Double` is a sign together with `mantissa * 2 ^ exponent`.
- `Double.ofRatio` rounds a quotient of natural numbers; products, quotients,
  integers and decimals are all rounded through it.
- `Double.Extended` adds the infinities and the value that is not a number,
  which only arithmetic on text can produce.
-/

namespace ViewSchema

/-- The quotient of two natural numbers rounded to the nearest one, a tie going
to the even neighbour. -/
def roundDiv (num den : Nat) : Nat :=
  let quotient := num / den
  let twice := 2 * (num % den)
  if den < twice || (twice == den && quotient % 2 == 1) then quotient + 1 else quotient

/-- A finite double: `mantissa * 2 ^ exponent` with a sign, so that there are
two zeros. Values built here are canonical: the mantissa has 53 bits unless the
exponent is the least one. -/
structure Double where
  /-- True for negative values and for the negative zero. -/
  negative : Bool
  mantissa : Nat
  exponent : Int
deriving DecidableEq, Repr, Inhabited

namespace Double

/-- Bits of a full mantissa. -/
def precision : Nat := 53

/-- The exponent of the least positive value. -/
def minExponent : Int := -1074

/-- The exponent of the largest values. -/
def maxExponent : Int := 971

/-- The zero of the given sign. -/
def zero (negative : Bool) : Double := ⟨negative, 0, minExponent⟩

/-- Both zeros count as zero. -/
def isZero (d : Double) : Bool := d.mantissa == 0

/-- Strictly below zero; the negative zero is not. -/
def isNegative (d : Double) : Bool := d.negative && !d.isZero

/-- Numerator of the magnitude, over `den`. -/
def num (d : Double) : Nat := d.mantissa * Nat.pow 2 d.exponent.toNat

/-- Denominator of the magnitude, a power of two. -/
def den (d : Double) : Nat := Nat.pow 2 (-d.exponent).toNat

/-- True when there is no fractional part. -/
def isInteger (d : Double) : Bool := d.num % d.den == 0

/-- The largest `k` with `2 ^ k ≤ num / den`, for positive arguments. -/
def ratioLog2 (num den : Nat) : Int :=
  let k : Int := (num.log2 : Int) - (den.log2 : Int)
  if den * Nat.pow 2 k.toNat ≤ num * Nat.pow 2 (-k).toNat then k else k - 1

/-- The double nearest to `num / den`; `none` when it lies beyond the largest
one. -/
def ofRatio (negative : Bool) (num den : Nat) : Option Double :=
  if num = 0 then some (zero negative)
  else
    let exponent := max (ratioLog2 num den - (precision - 1 : Nat)) minExponent
    let mantissa := roundDiv (num * Nat.pow 2 (-exponent).toNat) (den * Nat.pow 2 exponent.toNat)
    let rounded : Double :=
      if mantissa = Nat.pow 2 precision then ⟨negative, Nat.pow 2 (precision - 1), exponent + 1⟩
      else ⟨negative, mantissa, exponent⟩
    if maxExponent < rounded.exponent then none else some rounded

/-- The double nearest to a natural number; every number a program writes as a
machine integer has one. -/
def ofNat (n : Nat) : Double := (ofRatio false n 1).getD (zero false)

/-- The double nearest to an integer. -/
def ofInt (i : Int) : Double :=
  { ofNat i.natAbs with negative := decide (i < 0) }

/-- The rounded product; `none` when it overflows. -/
def mul? (a b : Double) : Option Double :=
  ofRatio (a.negative != b.negative) (a.num * b.num) (a.den * b.den)

/-- The rounded quotient by a nonzero value; `none` when it overflows. -/
def div? (a b : Double) : Option Double :=
  ofRatio (a.negative != b.negative) (a.num * b.den) (a.den * b.num)

/-- Results of arithmetic that may leave the finite doubles. -/
inductive Extended where
  | finite (value : Double)
  | infinite (negative : Bool)
  | notANumber
deriving DecidableEq, Repr

/-- A rounded magnitude, where an overflow gives the infinity of its sign. -/
def Extended.ofRounded (negative : Bool) : Option Double → Extended
  | some d => .finite d
  | none => .infinite negative

end Double

end ViewSchema
