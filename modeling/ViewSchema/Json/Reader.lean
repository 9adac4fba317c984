import ViewSchema.Json.Value
import ViewSchema.Number.Decimal

/-!
# Reading JSON

A reader of JSON text. Objects keep every member as written, repeated names
included; `Json.parse?` then merges repeated names. Nesting is limited, and a
number literal beyond the largest double is refused.
-/

namespace ViewSchema

namespace Json

namespace Reader

/-- What a reading step returns: a result and the characters after it. -/
abbrev Step (α : Type) := Option (α × List Char)

def isSpace (c : Char) : Bool := c == ' ' || c == '\n' || c == '\t' || c == '\r'

def skipSpace (cs : List Char) : List Char := cs.dropWhile isSpace

/-- Remove an expected text from the front. -/
def expect? : List Char → List Char → Option (List Char)
  | [], cs => some cs
  | e :: es, c :: cs => if e = c then expect? es cs else none
  | _ :: _, [] => none

/-! ## Strings -/

/-- Four hexadecimal digits. -/
def hexUnit : List Char → Option (Nat × List Char)
  | a :: b :: c :: d :: rest => do
    let a ← hexDigit? a
    let b ← hexDigit? b
    let c ← hexDigit? c
    let d ← hexDigit? d
    some (((a * 16 + b) * 16 + c) * 16 + d, rest)
  | _ => none

/-- The character of a `\u` escape, whose digits come first. A high surrogate
must be followed by the escape of a low one; a low one may not stand alone. -/
def unicodeEscape (cs : List Char) : Option (Char × List Char) := do
  let (unit, rest) ← hexUnit cs
  if 0xDC00 ≤ unit ∧ unit ≤ 0xDFFF then none
  else if 0xD800 ≤ unit ∧ unit ≤ 0xDBFF then
    match rest with
    | '\\' :: 'u' :: rest =>
      let (low, rest) ← hexUnit rest
      if 0xDC00 ≤ low ∧ low ≤ 0xDFFF then
        some (Char.ofNat (0x10000 + (unit - 0xD800) * 0x400 + (low - 0xDC00)), rest)
      else none
    | _ => none
  else some (Char.ofNat unit, rest)

/-- The character of an escape after the backslash. -/
def escape : List Char → Step Char
  | '"' :: rest => some ('"', rest)
  | '\\' :: rest => some ('\\', rest)
  | '/' :: rest => some ('/', rest)
  | 'b' :: rest => some (Char.ofNat 8, rest)
  | 'f' :: rest => some (Char.ofNat 12, rest)
  | 'n' :: rest => some ('\n', rest)
  | 'r' :: rest => some ('\r', rest)
  | 't' :: rest => some ('\t', rest)
  | 'u' :: rest => unicodeEscape rest
  | _ => none

/-- The rest of a string after its opening quote. -/
def stringBody : Nat → List Char → List Char → Step String
  | 0, _, _ => none
  | _ + 1, _, [] => none
  | fuel + 1, acc, c :: rest =>
    if c = '"' then some (String.ofList acc.reverse, rest)
    else if c = '\\' then
      match escape rest with
      | some (e, rest) => stringBody fuel (e :: acc) rest
      | none => none
    else if c.toNat < 0x20 then none
    else stringBody fuel (c :: acc) rest

/-! ## Numbers -/

/-- Significands are kept below this bound; further digits only scale. -/
def significandLimit : Nat := Nat.pow 2 64

/-- Exponents of more digits than this bound allows count as overflowing. -/
def exponentLimit : Int := Int.ofNat (Nat.pow 2 31)

/-- Append digits to a significand while it stays below the limit. The result is
the significand, the count of digits appended and the characters left. -/
def appendDigits (significand count : Nat) : List Char → Nat × Nat × List Char
  | [] => (significand, count, [])
  | c :: rest =>
    if c.isDigit ∧ significand * 10 + digitValue c < significandLimit then
      appendDigits (significand * 10 + digitValue c) (count + 1) rest
    else (significand, count, c :: rest)

/-- Round a literal's parts to a double. -/
def double (negative : Bool) (significand : Nat) (exponent : Int) (rest : List Char) :
    Step Number :=
  (Double.ofScaled negative significand exponent).map fun d => (.double d, rest)

/-- The exponent part after its letter. -/
def exponentPart (negative : Bool) (significand : Nat) (scale : Int) (cs : List Char) :
    Step Number :=
  let (down, cs) := match cs with
    | '-' :: r => (true, r)
    | '+' :: r => (false, r)
    | r => (false, r)
  let (digits, rest) := Double.takeDigits cs
  if digits.isEmpty then none
  else
    let n : Int := ofDigits digits
    if exponentLimit ≤ n then
      if significand ≠ 0 ∧ !down then none
      else some (.double (Double.zero negative), rest)
    else
      double negative significand
        (max (-exponentLimit) (min (exponentLimit - 1) (if down then scale - n else scale + n)))
        rest

/-- A literal's end: an exponent part or nothing. -/
def scaledEnd (negative : Bool) (significand : Nat) (scale : Int) (cs : List Char) :
    Step Number :=
  match cs with
  | 'e' :: rest => exponentPart negative significand scale rest
  | 'E' :: rest => exponentPart negative significand scale rest
  | rest => double negative significand scale rest

/-- The decimal places after the point, of which there is at least one. -/
def fractionPart (negative : Bool) (significand : Nat) (scale : Int) (cs : List Char) :
    Step Number :=
  match cs with
  | c :: _ =>
    if c.isDigit then
      let (significand, count, rest) := appendDigits significand 0 cs
      scaledEnd negative significand (scale - count) (rest.dropWhile Char.isDigit)
    else none
  | [] => none

/-- An integer literal; below the 64-bit range, and for the negative zero, it is
a double. -/
def integer (negative : Bool) (significand : Nat) : Number :=
  if !negative then .int significand
  else if significand = 0 ∨ Nat.pow 2 63 < significand then
    .double { Double.ofNat significand with negative := true }
  else .int (-significand)

/-- What may follow the whole digits of a literal. -/
def afterWhole (negative : Bool) (significand : Nat) (cs : List Char) : Step Number :=
  match cs with
  | '.' :: rest => fractionPart negative significand 0 rest
  | 'e' :: rest => exponentPart negative significand 0 rest
  | 'E' :: rest => exponentPart negative significand 0 rest
  | rest => some (integer negative significand, rest)

/-- What may follow whole digits that overflow the significand; `scale` counts
the digits left out of it. -/
def afterLongWhole (negative : Bool) (significand : Nat) (scale : Int) (cs : List Char) :
    Step Number :=
  match cs with
  | '.' :: rest => fractionPart negative significand scale rest
  | rest => scaledEnd negative significand scale rest

/-- A number literal after its sign. -/
def unsignedNumber (negative : Bool) (cs : List Char) : Step Number :=
  match cs with
  | '0' :: rest =>
    match rest with
    | c :: _ => if c.isDigit then none else afterWhole negative 0 rest
    | [] => afterWhole negative 0 []
  | c :: _ =>
    if c.isDigit then
      let (significand, _, rest) := appendDigits 0 0 cs
      let dropped := rest.takeWhile Char.isDigit
      if dropped.isEmpty then afterWhole negative significand rest
      else afterLongWhole negative significand dropped.length (rest.dropWhile Char.isDigit)
    else none
  | [] => none

def numberLiteral : List Char → Step Number
  | '-' :: rest => unsignedNumber true rest
  | cs => unsignedNumber false cs

/-! ## Values -/

mutual

/-- A value, after blanks. `depth` more levels of nesting are allowed. -/
def value (fuel depth : Nat) (cs : List Char) : Step Json :=
  match fuel with
  | 0 => none
  | fuel + 1 =>
    match skipSpace cs with
    | 'n' :: rest => (expect? ['u', 'l', 'l'] rest).map fun rest => (null, rest)
    | 't' :: rest => (expect? ['r', 'u', 'e'] rest).map fun rest => (bool true, rest)
    | 'f' :: rest => (expect? ['a', 'l', 's', 'e'] rest).map fun rest => (bool false, rest)
    | '"' :: rest => (stringBody (rest.length + 1) [] rest).map fun (s, rest) => (string s, rest)
    | '[' :: rest =>
      match depth with
      | 0 => none
      | depth + 1 =>
        match skipSpace rest with
        | ']' :: rest => some (array [], rest)
        | rest => (items fuel depth rest).map fun (xs, rest) => (array xs, rest)
    | '\x7b' :: rest =>
      match depth with
      | 0 => none
      | depth + 1 =>
        match skipSpace rest with
        | '\x7d' :: rest => some (object [], rest)
        | rest => (members fuel depth rest).map fun (xs, rest) => (object xs, rest)
    | rest => (numberLiteral rest).map fun (n, rest) => (number n, rest)

/-- The items of an array that is not empty, and its closing bracket. -/
def items (fuel depth : Nat) (cs : List Char) : Step (List Json) :=
  match fuel with
  | 0 => none
  | fuel + 1 =>
    match value fuel depth cs with
    | none => none
    | some (x, rest) =>
      match skipSpace rest with
      | ',' :: rest => (items fuel depth rest).map fun (xs, rest) => (x :: xs, rest)
      | ']' :: rest => some ([x], rest)
      | _ => none

/-- The members of an object that is not empty, and its closing brace. -/
def members (fuel depth : Nat) (cs : List Char) : Step (List (String × Json)) :=
  match fuel with
  | 0 => none
  | fuel + 1 =>
    match skipSpace cs with
    | '"' :: rest =>
      match stringBody (rest.length + 1) [] rest with
      | none => none
      | some (name, rest) =>
        match skipSpace rest with
        | ':' :: rest =>
          match value fuel depth rest with
          | none => none
          | some (x, rest) =>
            match skipSpace rest with
            | ',' :: rest =>
              (members fuel depth rest).map fun (xs, rest) => ((name, x) :: xs, rest)
            | '\x7d' :: rest => some ([(name, x)], rest)
            | _ => none
        | _ => none
    | _ => none

end

end Reader

/-- Levels of nesting that are read. -/
def maxDepth : Nat := 127

/-- A JSON text as written, with repeated names. -/
def parseAsWritten? (source : String) : Option Json :=
  let cs := source.toList
  match Reader.value (cs.length + 1) maxDepth cs with
  | some (value, rest) => if (Reader.skipSpace rest).isEmpty then some value else none
  | none => none

/-- A JSON text, with each name of an object once. -/
def parse? (source : String) : Option Json := (parseAsWritten? source).map distinct

end Json

end ViewSchema
