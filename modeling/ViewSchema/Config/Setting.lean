import ViewSchema.Json.Value

/-!
# Settings

Values of configuration files as they were written, before it is known what they
are for: repeated names are kept, and so are numbers that JSON cannot hold.
-/

namespace ViewSchema

inductive Setting where
  /-- Null, a truth value, a number or a text. -/
  | scalar (value : Json)
  /-- An infinite number or one that is not a number. -/
  | notFinite
  | list (items : List Setting)
  | table (fields : List (String × Setting))
deriving Repr

namespace Setting

instance : Inhabited Setting := ⟨scalar .null⟩

mutual

/-- A JSON value as a setting. -/
def ofJson : Json → Setting
  | .array items => list (ofItems items)
  | .object fields => table (ofFields fields)
  | other => scalar other

def ofItems : List Json → List Setting
  | [] => []
  | x :: xs => ofJson x :: ofItems xs

def ofFields : List (String × Json) → List (String × Setting)
  | [] => []
  | (name, x) :: xs => (name, ofJson x) :: ofFields xs

end

mutual

/-- A setting as a JSON value: of a repeated name the last value counts, and
numbers that are not finite become null. -/
def toJson : Setting → Json
  | scalar value => value
  | notFinite => .null
  | list items => .array (toItems items)
  | table fields => .object (Fields.ofList (toFields fields))

def toItems : List Setting → List Json
  | [] => []
  | x :: xs => toJson x :: toItems xs

def toFields : List (String × Setting) → List (String × Json)
  | [] => []
  | (name, x) :: xs => (name, toJson x) :: toFields xs

end

/-! ## Readers of typed settings -/

def isNull : Setting → Bool
  | scalar .null => true
  | _ => false

def string? : Setting → Option String
  | scalar (.string s) => some s
  | _ => none

def bool? : Setting → Option Bool
  | scalar (.bool b) => some b
  | _ => none

def nat? : Setting → Option Nat
  | scalar value => value.nat?
  | _ => none

def table? : Setting → Option (List (String × Setting))
  | table fields => some fields
  | _ => none

/-- The fields of a table as JSON. -/
def object? (s : Setting) : Option (List (String × Json)) :=
  s.table?.map fun fields => Fields.ofList (toFields fields)

/-- A setting that may be null. -/
def optional? {α : Type} (read : Setting → Option α) (s : Setting) : Option (Option α) :=
  if s.isNull then some none else (read s).map some

end Setting

/-! ## Records -/

/-- Reading the fields of a record, each of which may be given once. -/
def Setting.field? {α : Type} (fields : List (String × Setting)) (name : String)
    (read : Setting → Option α) (standard : Option α) : Option α :=
  match fields.filter fun field => field.1 == name with
  | [] => standard
  | [field] => read field.2
  | _ => none

end ViewSchema
