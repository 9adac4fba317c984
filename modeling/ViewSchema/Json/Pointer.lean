import ViewSchema.Json.Value
import ViewSchema.Number.Decimal
import ViewSchema.Text.Split

/-!
# JSON pointers

Paths into a value. Each step names a member of an object or the index of an
item; `~1` stands for a slash inside a step and `~0` for a tilde.
-/

namespace ViewSchema

namespace Json

/-- A step of a pointer with `~1` read as a slash. -/
def unescapeSlash : List Char → List Char
  | '~' :: '1' :: rest => '/' :: unescapeSlash rest
  | c :: rest => c :: unescapeSlash rest
  | [] => []

/-- A step of a pointer with `~0` read as a tilde. -/
def unescapeTilde : List Char → List Char
  | '~' :: '0' :: rest => '~' :: unescapeTilde rest
  | c :: rest => c :: unescapeTilde rest
  | [] => []

/-- An array index: digits without a leading zero. -/
def readIndex? (step : List Char) : Option Nat :=
  if step.isEmpty || !step.all Char.isDigit then none
  else if step.head? = some '0' ∧ step.length ≠ 1 then none
  else some (ofDigits step)

/-- One step into a value. -/
def step? (value : Json) (step : List Char) : Option Json :=
  match value with
  | object fields => fields.lookup (String.ofList step)
  | array items => (readIndex? step).bind fun i => items[i]?
  | _ => none

/-- Several steps into a value. -/
def steps? (value : Json) : List (List Char) → Option Json
  | [] => some value
  | step :: rest => (value.step? step).bind fun next => next.steps? rest

/-- The value a pointer leads to. The empty pointer leads to the value itself;
any other begins with a slash. -/
def pointer? (value : Json) (pointer : String) : Option Json :=
  match pointer.toList with
  | [] => some value
  | '/' :: rest =>
    value.steps? ((splitAtEach (· == '/') rest).map fun step =>
      unescapeTilde (unescapeSlash step))
  | _ => none

end Json

end ViewSchema
