import ViewSchema.Date.Calendar
import ViewSchema.Number.Decimal
import ViewSchema.Text.Blank

/-!
# Reading dates

Texts that stand for a moment: an internet timestamp with an offset, a date and
time without one, or a date alone, which means its midnight.
-/

namespace ViewSchema

namespace Moment

namespace Reader

/-- A result and the characters after it. -/
abbrev Step (α : Type) := Option (α × List Char)

/-- At least `least` and at most `most` digits. -/
def digits (least most : Nat) (cs : List Char) : Option (Nat × List Char) :=
  let run := (cs.take most).takeWhile Char.isDigit
  if run.length < least then none else some (ofDigits run, cs.drop run.length)

/-- One given character. -/
def char (expected : Char) : List Char → Option (List Char)
  | c :: rest => if c = expected then some rest else none
  | [] => none

/-- Build a moment from parts that may be out of range. A sixtieth second is a
leap second. -/
def build? (year : Int) (month day hour minute second nanosecond : Nat) : Option Moment :=
  if Calendar.isDate year month day && hour < 24 && minute < 60 && second ≤ 60 then
    let leap := second == 60
    some
      { year, month, day
        second := hour * 3600 + minute * 60 + (if leap then 59 else second)
        nanosecond := nanosecond + (if leap then 1000000000 else 0) }
  else none

/-- A fraction of a second after its point: nanoseconds, digits beyond the ninth
being dropped. -/
def fraction (cs : List Char) : Option (Nat × List Char) :=
  let run := cs.takeWhile Char.isDigit
  if run.isEmpty then none
  else
    let kept := run.take 9
    some (ofDigits kept * Nat.pow 10 (9 - kept.length), cs.drop run.length)

/-- An offset from universal time in seconds: the letter Z, or a sign with hours
and minutes. -/
def offset (cs : List Char) : Option (Int × List Char) :=
  match cs with
  | 'Z' :: rest => some (0, rest)
  | 'z' :: rest => some (0, rest)
  | sign :: rest => do
    let negative ←
      if sign = '+' then some false
      else if sign = '-' ∨ sign.toNat = 0x2212 then some true
      else none
    let (hours, rest) ← digits 2 2 rest
    let rest ← char ':' rest
    let (minutes, rest) ← digits 2 2 rest
    if hours < 24 ∧ minutes < 60 then
      let seconds : Int := hours * 3600 + minutes * 60
      some (if negative then -seconds else seconds, rest)
    else none
  | [] => none

/-- An internet timestamp, shifted to universal time. -/
def timestamp? (cs : List Char) : Option Moment := do
  let (year, cs) ← digits 4 4 cs
  let cs ← char '-' cs
  let (month, cs) ← digits 2 2 cs
  let cs ← char '-' cs
  let (day, cs) ← digits 2 2 cs
  let cs ← match cs with
    | c :: rest => if c = 'T' ∨ c = 't' ∨ c = ' ' then some rest else none
    | [] => none
  let (hour, cs) ← digits 2 2 cs
  let cs ← char ':' cs
  let (minute, cs) ← digits 2 2 cs
  let cs ← char ':' cs
  let (second, cs) ← digits 2 2 cs
  let (nanosecond, cs) ← match cs with
    | '.' :: rest => fraction rest
    | _ => some (0, cs)
  let (shift, cs) ← offset cs
  let here ← build? year month day hour minute second nanosecond
  if cs.isEmpty then ofEpochSecond? (here.epochSecond - shift) here.nanosecond else none

/-- A year: four digits, or a sign and any number of them. -/
def year (cs : List Char) : Option (Int × List Char) :=
  match cs with
  | '-' :: rest => (digits 1 rest.length rest).map fun (n, rest) => (-(n : Int), rest)
  | '+' :: rest => (digits 1 rest.length rest).map fun (n, rest) => ((n : Int), rest)
  | _ => (digits 1 4 cs).map fun (n, rest) => ((n : Int), rest)

/-- A number of one or two digits after blanks. -/
def part (cs : List Char) : Option (Nat × List Char) := digits 1 2 (cs.dropWhile isBlank)

/-- Year, month and day. -/
def date (cs : List Char) : Option ((Int × Nat × Nat) × List Char) := do
  let (year, cs) ← year (cs.dropWhile isBlank)
  let cs ← char '-' cs
  let (month, cs) ← part cs
  let cs ← char '-' cs
  let (day, cs) ← part cs
  some ((year, month, day), cs)

/-- A date and a time of day without an offset. -/
def dateTime? (cs : List Char) : Option Moment := do
  let ((year, month, day), cs) ← date cs
  let cs ← char 'T' cs
  let (hour, cs) ← part cs
  let cs ← char ':' cs
  let (minute, cs) ← part cs
  let cs ← char ':' cs
  let (second, cs) ← part cs
  if cs.isEmpty then build? year month day hour minute second 0 else none

/-- A date alone. -/
def dateOnly? (cs : List Char) : Option Moment := do
  let ((year, month, day), cs) ← date cs
  if cs.isEmpty then build? year month day 0 0 0 0 else none

end Reader

/-- The moment that a text stands for, at universal time. -/
def read? (text : String) : Option Moment :=
  let cs := text.toList
  (Reader.timestamp? cs).or ((Reader.dateTime? cs).or (Reader.dateOnly? cs))

end Moment

end ViewSchema
