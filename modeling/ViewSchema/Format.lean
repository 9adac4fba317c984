import ViewSchema.Date.Pattern
import ViewSchema.Date.Reader
import ViewSchema.Json.Text
import ViewSchema.Number.Decimal
import ViewSchema.Number.Fixed

/-!
# Formatting leaf values

How a leaf value looks. The nearest enclosing section decides through its field
`format`: a grouped number, an amount of money, a percentage or a date, in the
conventions of a language. A value that the format cannot handle is shown as
plain text.

Main definitions:

- `Formatter.number` and `Formatter.currency` write a number in the separators
  of a language.
- `Formatter.format` reads the options of a section.
-/

namespace ViewSchema

/-- What a language puts between groups of digits and before decimals. -/
structure Separators where
  thousands : String
  decimal : String
deriving DecidableEq, Repr

/-- A no-break space. -/
def noBreakSpace : String := String.singleton (Char.ofNat 0xA0)

/-- Languages that group by points. -/
def pointGroupedLanguages : List String := ["es", "de", "it", "pt", "nl", "id", "tr"]

/-- Languages that group by no-break spaces. -/
def blankGroupedLanguages : List String := ["fr", "ru", "pl", "cs", "sv", "fi", "nb"]

/-- The separators of a language tag, by its primary part. -/
def Separators.ofLang (lang : String) : Separators :=
  let primary := (textBefore (fun c => c == '-' || c == '_') lang).toLower
  if pointGroupedLanguages.contains primary then ⟨".", ","⟩
  else if blankGroupedLanguages.contains primary then ⟨noBreakSpace, ","⟩
  else ⟨",", "."⟩

/-- The sign of a currency code in any case; an unknown code is its own sign. -/
def currencySymbol (code : String) : String :=
  match code.toUpper with
  | "USD" | "MXN" | "CAD" | "AUD" => "$"
  | "EUR" => "€"
  | "GBP" => "£"
  | "JPY" | "CNY" => "¥"
  | "INR" => "₹"
  | "BRL" => "R$"
  | _ => code

/-- Digits with a separator before every group of three, counted from the
end. -/
def groupDigits (separator : List Char) : List Char → List Char
  | [] => []
  | d :: rest =>
    if rest.length % 3 = 0 && !rest.isEmpty then
      d :: (separator ++ groupDigits separator rest)
    else d :: groupDigits separator rest

/-- The magnitude of a number in a fixed number of decimal places: the whole
digits and the decimals. -/
def magnitudeDigits (places : Nat) : Double.Extended → List Char × List Char
  | .finite d => d.fixedDigits places
  | .infinite _ => (['i', 'n', 'f'], [])
  | .notANumber => (['N', 'a', 'N'], [])

/-- Strictly below zero. -/
def Double.Extended.isNegative : Double.Extended → Bool
  | .finite d => d.isNegative
  | .infinite negative => negative
  | .notANumber => false

/-- Formats leaf values in the conventions of a language. -/
structure Formatter where
  lang : String
deriving DecidableEq, Repr

namespace Formatter

def separators (f : Formatter) : Separators := .ofLang f.lang

/-- Whether a number shows a sign: it is below zero and some digit that is shown
is not a zero. -/
def showsSign (n : Double.Extended) (whole fraction : List Char) : Bool :=
  n.isNegative && (whole ++ fraction).any fun c => c.isDigit && c != '0'

/-- The digits of a number, grouped, without its sign. -/
def unsigned (f : Formatter) (whole fraction : List Char) : String :=
  let decimals :=
    if fraction.isEmpty then "" else f.separators.decimal ++ String.ofList fraction
  String.ofList (groupDigits f.separators.thousands.toList whole) ++ decimals

/-- A grouped number with a fixed number of decimals. -/
def number (f : Formatter) (n : Double.Extended) (places : Nat) : String :=
  let (whole, fraction) := magnitudeDigits places n
  (if showsSign n whole fraction then "-" else "") ++ f.unsigned whole fraction

/-- An amount of money: a number and the symbol of its currency. The symbol stands between sign and
digits in languages with a decimal point, and at the end elsewhere. -/
def currency (f : Formatter) (n : Double.Extended) (code : String) (places : Nat) : String :=
  let amount := f.number n places
  let symbol := currencySymbol code
  if f.separators.decimal = "." then
    match amount.toList with
    | '-' :: digits => "-" ++ symbol ++ String.ofList digits
    | _ => symbol ++ amount
  else amount ++ noBreakSpace ++ symbol

/-- The number that a value is or spells. -/
def numberOf? : Json → Option Double.Extended
  | .number n => some (.finite n.toDouble)
  | .string s => Double.read? (trimBlanks s)
  | _ => none

/-- The moment that a value is or spells; numbers count milliseconds. -/
def momentOf? : Json → Option Moment
  | .number n => n.toInt?.bind Moment.ofEpochMillis?
  | .string s => Moment.read? s
  | _ => none

/-- A hundred times a number. -/
def hundredfold : Double.Extended → Double.Extended
  | .finite d => .ofRounded d.negative (d.mul? (.ofNat 100))
  | other => other

/-- Places of a number whose section names none. -/
def defaultPlaces : Double.Extended → Nat
  | .finite d => if d.isInteger then 0 else 2
  | _ => 2

/-- The most decimal places that a section may ask for. -/
def maxPlaces : Nat := 20

/-- The pattern of dates whose section names none. -/
def defaultDatePattern : String := "%Y-%m-%d"

/-- A value in the format that a section asks for, if the format can handle
it. -/
def formatted? (f : Formatter) (value : Json) (options : List (String × Json)) :
    Option String :=
  let places? := ((options.lookup "decimals").bind Json.nat?).map (min maxPlaces)
  match Fields.string? options "format" with
  | some "number" =>
    (numberOf? value).map fun n => f.number n (places?.getD (defaultPlaces n))
  | some "currency" =>
    (numberOf? value).map fun n =>
      f.currency n ((Fields.string? options "currency").getD "USD") (places?.getD 2)
  | some "percent" =>
    (numberOf? value).map fun n => f.number (hundredfold n) (places?.getD 0) ++ "%"
  | some "date" =>
    (momentOf? value).bind
      (DatePattern.write? ((Fields.string? options "dateFormat").getD defaultDatePattern))
  | _ => none

/-- The text of a leaf value inside a section, or outside of any. -/
def format (f : Formatter) (value : Json) (options : Option (List (String × Json))) : String :=
  (options.bind (f.formatted? value)).getD value.displayText

end Formatter

end ViewSchema
