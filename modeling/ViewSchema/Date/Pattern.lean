import ViewSchema.Date.Calendar
import ViewSchema.Text.Blank

/-!
# Date patterns

Patterns that write a moment: text with fields such as `%Y` and `%d`. A field
of a number may carry a padding mark. A pattern with a field that is unknown, or
that asks for a time zone, writes nothing at all.
-/

namespace ViewSchema

namespace DatePattern

/-- What fills a number up to its width. -/
inductive Padding where
  | none
  | zero
  | blank
deriving DecidableEq, Repr

/-- Numbers that a moment has. -/
inductive DigitField where
  | year | century | yearOfCentury | isoYear | isoYearOfCentury
  | quarter | month | day | ordinal
  | weekFromSunday | weekFromMonday | isoWeek | daysFromSunday | daysFromMonday
  | hour | dialHour | minute | second | nanosecond | epochSecond
deriving DecidableEq, Repr

/-- Names and fractions that a moment has. -/
inductive TextField where
  | shortMonth | longMonth | shortWeekday | longWeekday
  | lowerHalf | upperHalf
  /-- A point and as many of 3, 6 or 9 digits as are needed; nothing when the
  fraction is zero. -/
  | fraction
  /-- A given number of digits of the fraction, with a point or without. -/
  | fractionDigits (count : Nat) (point : Bool)
deriving DecidableEq, Repr

/-- A part of a pattern. -/
inductive Item where
  | literal (text : String)
  | number (field : DigitField) (padding : Padding)
  | text (field : TextField)
  /-- A field that cannot be written. -/
  | invalid
deriving DecidableEq, Repr

open DigitField TextField

private def two (field : DigitField) : Item := .number field .zero

private def hourMinuteSecond : List Item :=
  [two hour, .literal ":", two minute, .literal ":", two second]

private def monthDayYear : List Item :=
  [two month, .literal "/", two day, .literal "/", two yearOfCentury]

/-- The items that a letter stands for. -/
def letterItems (letter : Char) : List Item :=
  match letter with
  | 'A' => [.text longWeekday]
  | 'B' => [.text longMonth]
  | 'C' => [two century]
  | 'D' => monthDayYear
  | 'F' => [two year, .literal "-", two month, .literal "-", two day]
  | 'G' => [two isoYear]
  | 'H' => [two hour]
  | 'I' => [two dialHour]
  | 'M' => [two minute]
  | 'P' => [.text lowerHalf]
  | 'R' => [two hour, .literal ":", two minute]
  | 'S' => [two second]
  | 'T' => hourMinuteSecond
  | 'U' => [two weekFromSunday]
  | 'V' => [two isoWeek]
  | 'W' => [two weekFromMonday]
  | 'X' => hourMinuteSecond
  | 'Y' => [two year]
  | 'a' => [.text shortWeekday]
  | 'b' => [.text shortMonth]
  | 'c' =>
    [.text shortWeekday, .literal " ", .text shortMonth, .literal " ",
      .number day .blank, .literal " "] ++ hourMinuteSecond ++ [.literal " ", two year]
  | 'd' => [two day]
  | 'e' => [.number day .blank]
  | 'f' => [two nanosecond]
  | 'g' => [two isoYearOfCentury]
  | 'h' => [.text shortMonth]
  | 'j' => [two ordinal]
  | 'k' => [.number hour .blank]
  | 'l' => [.number dialHour .blank]
  | 'm' => [two month]
  | 'n' => [.literal "\n"]
  | 'p' => [.text upperHalf]
  | 'q' => [.number quarter .none]
  | 'r' =>
    [two dialHour, .literal ":", two minute, .literal ":", two second, .literal " ",
      .text upperHalf]
  | 's' => [.number epochSecond .none]
  | 't' => [.literal "\t"]
  | 'u' => [.number daysFromMonday .none]
  | 'v' =>
    [.number day .blank, .literal "-", .text shortMonth, .literal "-", two year]
  | 'w' => [.number daysFromSunday .none]
  | 'x' => monthDayYear
  | 'y' => [two yearOfCentury]
  | '%' => [.literal "%"]
  | _ => [.invalid]

/-- The padding that a mark asks for. -/
def paddingMark? : Char → Option Padding
  | '-' => some .none
  | '0' => some .zero
  | '_' => some .blank
  | _ => none

/-- Only a single number takes a padding mark. -/
def withPadding (padding : Padding) : List Item → List Item
  | [.number field _] => [.number field padding]
  | _ => [.invalid]

/-- The number of fraction digits that a digit asks for. -/
def fractionCount? : Char → Option Nat
  | '3' => some 3
  | '6' => some 6
  | '9' => some 9
  | _ => none

/-- The items of a pattern. -/
def parse : List Char → List Item
  | [] => []
  | '%' :: '.' :: 'f' :: rest => .text fraction :: parse rest
  | '%' :: '.' :: d :: 'f' :: rest =>
    match fractionCount? d with
    | some count => .text (fractionDigits count true) :: parse rest
    | none => [.invalid]
  | '%' :: d :: 'f' :: rest =>
    match fractionCount? d, paddingMark? d with
    | some count, _ => .text (fractionDigits count false) :: parse rest
    | none, some padding => withPadding padding (letterItems 'f') ++ parse rest
    | none, none => letterItems d ++ .literal "f" :: parse rest
  | '%' :: mark :: letter :: rest =>
    match paddingMark? mark with
    | some padding => withPadding padding (letterItems letter) ++ parse rest
    | none => letterItems mark ++ parse (letter :: rest)
  | ['%', letter] => letterItems letter
  | ['%'] => [.invalid]
  | c :: rest => .literal (String.singleton c) :: parse rest

/-- The value of a number field. -/
def DigitField.value (field : DigitField) (m : Moment) : Int :=
  match field with
  | year => m.year
  | century => Int.fdiv m.year 100
  | yearOfCentury => Int.emod m.year 100
  | isoYear => (Calendar.isoWeek m.year m.month m.day).1
  | isoYearOfCentury => Int.emod (Calendar.isoWeek m.year m.month m.day).1 100
  | quarter => (m.month - 1) / 3 + 1
  | month => m.month
  | day => m.day
  | ordinal => Calendar.ordinal m.year m.month m.day
  | weekFromSunday => Calendar.weekFrom 0 m.year m.month m.day
  | weekFromMonday => Calendar.weekFrom 1 m.year m.month m.day
  | isoWeek => (Calendar.isoWeek m.year m.month m.day).2
  | daysFromSunday => Calendar.weekday m.year m.month m.day
  | daysFromMonday => (Calendar.weekday m.year m.month m.day + 6) % 7 + 1
  | hour => m.hour
  | dialHour => m.dialHour
  | minute => m.minute
  | second => m.shownSecond
  | nanosecond => m.fraction
  | epochSecond => m.epochSecond

/-- The width to which a number field is filled. -/
def DigitField.width : DigitField → Nat
  | year | isoYear => 4
  | quarter | daysFromSunday | daysFromMonday => 1
  | ordinal => 3
  | nanosecond | epochSecond => 9
  | _ => 2

/-- Fill digits and their sign up to a width. Zeros go between sign and digits,
blanks before both. -/
def fill (padding : Padding) (width : Nat) (sign digits : String) : String :=
  let missing := width - (sign.length + digits.length)
  match padding with
  | .none => sign ++ digits
  | .zero => sign ++ String.ofList (List.replicate missing '0') ++ digits
  | .blank => String.ofList (List.replicate missing ' ') ++ sign ++ digits

/-- A year outside of four digits carries its sign in any case. -/
def writeYear (padding : Padding) (y : Int) : String :=
  if 0 ≤ y ∧ y < 10000 then fill padding 4 "" (toString y)
  else fill padding 5 (if y < 0 then "-" else "+") (toString y.natAbs)

/-- A century is kept in a byte; its tens are one character, which is a digit
up to ninety-nine. -/
def writeCentury (padding : Padding) (c : Int) : String :=
  let byte := (Int.emod c 256).toNat
  let ones := Char.ofNat ('0'.toNat + byte % 10)
  let tens := Char.ofNat ('0'.toNat + byte / 10)
  match padding with
  | .none => if byte < 10 then String.ofList [ones] else String.ofList [tens, ones]
  | .blank => String.ofList [if byte < 10 then ' ' else tens, ones]
  | .zero => String.ofList [tens, ones]

/-- Write a number field. -/
def DigitField.write (field : DigitField) (padding : Padding) (m : Moment) : String :=
  let value := field.value m
  match field with
  | year | isoYear => writeYear padding value
  | century => writeCentury padding value
  | _ => fill padding field.width (if value < 0 then "-" else "") (toString value.natAbs)

private def zeroFilled (width n : Nat) : String := fill .zero width "" (toString n)

/-- The first letters of a name. -/
def shortName (name : String) : String := String.ofList (name.toList.take 3)

/-- Write a name or a fraction. -/
def TextField.write (field : TextField) (m : Moment) : String :=
  let monthName := (Calendar.monthNames[m.month - 1]?).getD ""
  let dayName := (Calendar.weekdayNames[Calendar.weekday m.year m.month m.day]?).getD ""
  match field with
  | longMonth => monthName
  | shortMonth => shortName monthName
  | longWeekday => dayName
  | shortWeekday => shortName dayName
  | lowerHalf => if m.isAfternoon then "pm" else "am"
  | upperHalf => if m.isAfternoon then "PM" else "AM"
  | fraction =>
    if m.fraction = 0 then ""
    else if m.fraction % 1000000 = 0 then "." ++ zeroFilled 3 (m.fraction / 1000000)
    else if m.fraction % 1000 = 0 then "." ++ zeroFilled 6 (m.fraction / 1000)
    else "." ++ zeroFilled 9 m.fraction
  | fractionDigits count point =>
    (if point then "." else "") ++ zeroFilled count (m.fraction / Nat.pow 10 (9 - count))

/-- Write one item. -/
def Item.write? (item : Item) (m : Moment) : Option String :=
  match item with
  | .literal written => some written
  | .number field padding => some (field.write padding m)
  | .text field => some (field.write m)
  | .invalid => none

/-- Write a moment in a pattern; nothing when some item cannot be written. -/
def write? (pattern : String) (m : Moment) : Option String :=
  ((parse pattern.toList).mapM fun item : Item => item.write? m).map String.join

end DatePattern

end ViewSchema
