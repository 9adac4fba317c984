import ViewSchema.Json.Value
import ViewSchema.Number.Shortest

/-!
# JSON text

Values written as JSON: compactly on one line, or indented by two spaces. A
double is always written so that it reads back as a double.
-/

namespace ViewSchema

/-- Doubles are positional from 0.00001 up to below 10 ^ 16. -/
def Number.layout : Double.Layout := { least := -5, limit := 16 }

/-- A number as JSON text. -/
def Number.text : Number → String
  | .int i => toString i
  | .double d => d.render Number.layout

namespace Json

/-- The lower-case hexadecimal digits of a number, at least `width` of them. -/
def hexDigits (width n : Nat) : List Char :=
  let digits := Nat.toDigits 16 n
  List.replicate (width - digits.length) '0' ++ digits

/-- A character inside a JSON string. -/
def escapeChar (c : Char) : List Char :=
  if c = '"' then ['\\', '"']
  else if c = '\\' then ['\\', '\\']
  else if c = '\n' then ['\\', 'n']
  else if c = '\r' then ['\\', 'r']
  else if c = '\t' then ['\\', 't']
  else if c.toNat = 8 then ['\\', 'b']
  else if c.toNat = 12 then ['\\', 'f']
  else if c.toNat < 0x20 then '\\' :: 'u' :: hexDigits 4 c.toNat
  else [c]

/-- A quoted JSON string. -/
def quoted (s : String) : String :=
  "\"" ++ String.ofList (s.toList.flatMap escapeChar) ++ "\""

mutual

/-- Compact JSON text. -/
def text : Json → String
  | null => "null"
  | bool b => if b then "true" else "false"
  | number n => n.text
  | string s => quoted s
  | array items => "[" ++ String.intercalate "," (itemTexts items) ++ "]"
  | object fields => "\x7b" ++ String.intercalate "," (fieldTexts fields) ++ "\x7d"

def itemTexts : List Json → List String
  | [] => []
  | x :: xs => text x :: itemTexts xs

def fieldTexts : List (String × Json) → List String
  | [] => []
  | (name, x) :: xs => (quoted name ++ ":" ++ text x) :: fieldTexts xs

end

/-- A new line at a depth of indentation. -/
def lineBreak (depth : Nat) : String := "\n" ++ String.ofList (List.replicate (2 * depth) ' ')

/-- Bracketed entries, one a line; nothing stands between the brackets of an
empty list. -/
def block (opening closing : String) (depth : Nat) (entries : List String) : String :=
  if entries.isEmpty then opening ++ closing
  else
    opening ++ lineBreak (depth + 1)
      ++ String.intercalate ("," ++ lineBreak (depth + 1)) entries
      ++ lineBreak depth ++ closing

mutual

/-- Indented JSON text of a value that stands at a depth. -/
def prettyAt (depth : Nat) : Json → String
  | array items => block "[" "]" depth (prettyItems (depth + 1) items)
  | object fields => block "\x7b" "\x7d" depth (prettyFields (depth + 1) fields)
  | null => "null"
  | bool b => if b then "true" else "false"
  | number n => n.text
  | string s => quoted s

def prettyItems (depth : Nat) : List Json → List String
  | [] => []
  | x :: xs => prettyAt depth x :: prettyItems depth xs

def prettyFields (depth : Nat) : List (String × Json) → List String
  | [] => []
  | (name, x) :: xs => (quoted name ++ ": " ++ prettyAt depth x) :: prettyFields depth xs

end

/-- Indented JSON text. -/
def pretty (value : Json) : String := prettyAt 0 value

/-- The text a scalar shows to a reader: strings as they are, nothing for null,
and JSON text otherwise. -/
def displayText : Json → String
  | null => ""
  | string s => s
  | other => other.text

end Json

end ViewSchema
