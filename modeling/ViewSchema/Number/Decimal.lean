import ViewSchema.Number.Double

/-!
# Reading decimals

Decimal notation read into doubles. `Double.ofDecimal` is the correctly rounded
reading used for numbers inside text; `Double.ofScaled` is the reading of number
literals, which scales a 64-bit significand by powers of ten that are doubles
themselves, and so may differ in the last bit.
-/

namespace ViewSchema

/-- The value of a decimal digit. -/
def digitValue (c : Char) : Nat := c.toNat - '0'.toNat

/-- The value of a hexadecimal digit. -/
def hexDigit? (c : Char) : Option Nat :=
  if c.isDigit then some (digitValue c)
  else if 'a' ≤ c ∧ c ≤ 'f' then some (c.toNat - 'a'.toNat + 10)
  else if 'A' ≤ c ∧ c ≤ 'F' then some (c.toNat - 'A'.toNat + 10)
  else none

/-- The number written by digits of a base of at most sixteen, at least one. -/
def ofBaseDigits? (base : Nat) (digits : List Char) : Option Nat :=
  if digits.isEmpty then none
  else digits.foldlM (fun n d =>
    (hexDigit? d).bind fun v => if v < base then some (base * n + v) else none) 0

/-- The number written by decimal digits, most significant first. -/
def ofDigits (digits : List Char) : Nat :=
  digits.foldl (fun n c => 10 * n + digitValue c) 0

namespace Double

/-- Beyond this power of ten every magnitude overflows, and below its negative
every magnitude vanishes. -/
def decimalBound : Int := 400

/-- The double nearest to `± significand * 10 ^ exponent`. -/
def ofDecimal (negative : Bool) (significand : Nat) (exponent : Int) : Extended :=
  if significand = 0 then .finite (zero negative)
  else
    let leading := exponent + ((Nat.toDigits 10 significand).length : Int)
    if decimalBound < leading then .infinite negative
    else if leading < -decimalBound then .finite (zero negative)
    else
      .ofRounded negative
        (ofRatio negative (significand * Nat.pow 10 exponent.toNat)
          (Nat.pow 10 (-exponent).toNat))

/-- The largest power of ten that is applied in one step. -/
def largestPower : Nat := 308

/-- A power of ten as a double. -/
def powerOfTen (k : Nat) : Double := ofNat (Nat.pow 10 k)

/-- Divide by `10 ^ k`, in steps of at most the largest power. -/
def scaleDown (d : Double) (k : Nat) : Double :=
  if k ≤ largestPower then (d.div? (powerOfTen k)).getD d
  else if d.isZero then d
  else scaleDown ((d.div? (powerOfTen largestPower)).getD d) (k - largestPower)
termination_by k
decreasing_by
  rename_i h _
  simp only [largestPower] at h ⊢
  omega

/-- A 64-bit significand scaled by a power of ten, each step rounded; `none`
when the result overflows. -/
def ofScaled (negative : Bool) (significand : Nat) (exponent : Int) : Option Double :=
  let magnitude := ofNat significand
  let scaled :=
    if exponent < 0 then some (scaleDown magnitude (-exponent).toNat)
    else if exponent.toNat ≤ largestPower then magnitude.mul? (powerOfTen exponent.toNat)
    else if magnitude.isZero then some magnitude
    else none
  scaled.map fun d => { d with negative }

/-! ## Numbers inside text -/

/-- A digit sequence and what follows it. -/
def takeDigits (cs : List Char) : List Char × List Char :=
  (cs.takeWhile Char.isDigit, cs.dropWhile Char.isDigit)

/-- The exponent part of a decimal, all of it or nothing. -/
def readExponent? : List Char → Option Int
  | [] => some 0
  | c :: rest =>
    if c = 'e' ∨ c = 'E' then
      let (negative, digits) := match rest with
        | '-' :: r => (true, r)
        | '+' :: r => (false, r)
        | r => (false, r)
      if digits.isEmpty || !digits.all Char.isDigit then none
      else
        let n : Int := ofDigits digits
        some (if negative then -n else n)
    else none

/-- An unsigned decimal: digits with an optional point among them, at least one
digit, and an optional exponent. -/
def readMagnitude? (negative : Bool) (cs : List Char) : Option Extended :=
  let (whole, afterWhole) := takeDigits cs
  let (fraction, rest) := match afterWhole with
    | '.' :: r => takeDigits r
    | r => ([], r)
  if whole.isEmpty && fraction.isEmpty then none
  else
    (readExponent? rest).map fun e =>
      ofDecimal negative (ofDigits (whole ++ fraction)) (e - fraction.length)

/-- A number as text: an optional sign, then a decimal or one of the names
`inf`, `infinity` and `nan` in any case. -/
def read? (text : String) : Option Extended :=
  let (negative, body) := match text.toList with
    | '-' :: r => (true, r)
    | '+' :: r => (false, r)
    | r => (false, r)
  let name := body.map Char.toLower
  if name = "inf".toList ∨ name = "infinity".toList then some (.infinite negative)
  else if name = "nan".toList then some .notANumber
  else readMagnitude? negative body

end Double

end ViewSchema
