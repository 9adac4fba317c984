import ViewSchema.Number.Double

/-!
# Shortest decimals

The fewest decimal digits that read back as a given double, the nearest of those
when several do, and the layout in which they are written.

Main definitions:

- `Double.shortestDigits` finds digits and decimal exponent.
- `Double.Layout` says when a decimal is written positionally and how its
  exponent looks; `Double.render` writes a double in a layout.
-/

namespace ViewSchema

namespace Double

/-- The open or closed interval of values that round to a positive double, each
bound and the value itself as numerators over a shared denominator. -/
structure Neighbourhood where
  low : Nat
  value : Nat
  high : Nat
  den : Nat
  /-- The bounds themselves round to the value. -/
  closed : Bool

/-- The halfway points to the neighbours of a positive double. -/
def neighbourhood (d : Double) : Neighbourhood :=
  let unit := Nat.pow 2 d.exponent.toNat
  let below := if d.mantissa = Nat.pow 2 (precision - 1) ∧ minExponent < d.exponent then 1 else 2
  { low := (4 * d.mantissa - below) * unit
    value := 4 * d.mantissa * unit
    high := (4 * d.mantissa + 2) * unit
    den := 4 * d.den
    closed := d.mantissa % 2 == 0 }

/-- Whether `c * num / den` lies in the neighbourhood. -/
def Neighbourhood.contains (n : Neighbourhood) (c num den : Nat) : Bool :=
  let point := c * num * n.den
  let low := n.low * den
  let high := n.high * den
  if n.closed then low ≤ point && point ≤ high else low < point && point < high

/-- The multiple of `num / den` that lies in the neighbourhood and is nearest to
its value, if there is one; a tie goes to the even multiple. -/
def Neighbourhood.nearest? (n : Neighbourhood) (num den : Nat) : Option Nat :=
  let scaled := n.value * den
  let step := n.den * num
  let floor := scaled / step
  let choices := [floor, floor + 1].filter fun c => n.contains c num den
  match choices with
  | [c] => some c
  | _ :: _ :: _ => some (roundDiv scaled step)
  | [] => none

/-- Decimal digits and the power of ten of the last one. -/
structure Decimal where
  digits : Nat
  exponent : Int
deriving DecidableEq, Repr

/-- The largest `k` with `10 ^ k ≤ num / den`, for positive arguments: an
estimate from the binary logarithm, corrected by at most two steps. -/
def ratioLog10 (num den : Nat) : Int :=
  let guess : Int := Int.fdiv ((ratioLog2 num den) * 30103) 100000 + 1
  let reaches (k : Int) : Bool := den * Nat.pow 10 k.toNat ≤ num * Nat.pow 10 (-k).toNat
  if reaches guess then guess else if reaches (guess - 1) then guess - 1 else guess - 2

/-- Try grids of increasing fineness, the first one with a hit wins. -/
def shortestFrom (n : Neighbourhood) (leading : Int) : Nat → Nat → Decimal
  | 0, _ => ⟨n.value / n.den, 0⟩
  | tries + 1, places =>
    let exponent := leading - places
    match n.nearest? (Nat.pow 10 exponent.toNat) (Nat.pow 10 (-exponent).toNat) with
    | some c => ⟨c, exponent⟩
    | none => shortestFrom n leading tries (places + 1)

/-- Digits that always suffice. -/
def maxDigits : Nat := 17

/-- The shortest decimal that reads back as a positive double. -/
def shortestDigits (d : Double) : Decimal :=
  shortestFrom d.neighbourhood (ratioLog10 d.num d.den) maxDigits 0

/-- Where positional notation ends. A decimal is positional when the power of
ten of its leading digit is at least `least` and below `limit`. -/
structure Layout where
  least : Int
  limit : Int

/-- Drop zeros at the end of a digit sequence, counting them. -/
def trimZeros (digits : List Char) : List Char × Nat :=
  let kept := (digits.reverse.dropWhile (· == '0')).reverse
  (kept, digits.length - kept.length)

/-- Write a double: positionally with a point and at least one digit on each
side of it, or with one digit before the point and a signed exponent. -/
def render (layout : Layout) (d : Double) : String :=
  let sign := if d.negative then "-" else ""
  if d.isZero then sign ++ "0.0"
  else
    let decimal := d.shortestDigits
    let (digits, dropped) := trimZeros (Nat.toDigits 10 decimal.digits)
    let exponent := decimal.exponent + dropped
    let leading := exponent + digits.length - 1
    let body :=
      if layout.least ≤ leading ∧ leading < layout.limit then
        if 0 ≤ exponent then
          String.ofList (digits ++ List.replicate exponent.toNat '0') ++ ".0"
        else if 0 ≤ leading then
          let whole := (leading + 1).toNat
          String.ofList (digits.take whole) ++ "." ++ String.ofList (digits.drop whole)
        else
          "0." ++ String.ofList (List.replicate (-leading - 1).toNat '0' ++ digits)
      else
        let fraction := digits.drop 1
        let point := if fraction.isEmpty then "" else "."
        let mark := if leading < 0 then "e-" else "e+"
        String.ofList (digits.take 1) ++ point ++ String.ofList fraction ++ mark
          ++ toString leading.natAbs
    sign ++ body

end Double

end ViewSchema
