import ViewSchema.Number.Double

/-!
# Fixed places

A double written with a given number of decimal places. The digits are those of
the exact binary value, rounded once; a tie goes to the even digit.
-/

namespace ViewSchema

namespace Double

/-- Left-pad a digit sequence with zeros to a minimal length. -/
def padZeros (width : Nat) (digits : List Char) : List Char :=
  List.replicate (width - digits.length) '0' ++ digits

/-- The whole digits and the `places` decimal digits of the magnitude. -/
def fixedDigits (places : Nat) (d : Double) : List Char × List Char :=
  let scaled := roundDiv (d.num * Nat.pow 10 places) d.den
  let digits := padZeros (places + 1) (Nat.toDigits 10 scaled)
  (digits.take (digits.length - places), digits.drop (digits.length - places))

end Double

end ViewSchema
