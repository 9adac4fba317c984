import ViewSchema.Json.Text
import ViewSchema.Url.Basic

/-!
# Queries

Values as the fields of a query. Nested objects flatten to dotted names, an array
repeats its name for every scalar in it, and a null gives nothing.
-/

namespace ViewSchema

namespace Query

/-- The text of a scalar as a field. -/
def scalarText? : Json → Option String
  | .string s => some s
  | .number n => some n.text
  | .bool b => some (if b then "true" else "false")
  | _ => none

mutual

/-- The fields that a value gives under a name. -/
def ofValue (name : String) : Json → List (String × String)
  | .object fields => ofMembers name fields
  | .array items => items.filterMap fun item => (scalarText? item).map (name, ·)
  | value => ((scalarText? value).map (name, ·)).toList

/-- The fields that the members of an object give under the name of the object. -/
def ofMembers (name : String) : List (String × Json) → List (String × String)
  | [] => []
  | (member, value) :: rest => ofValue (name ++ "." ++ member) value ++ ofMembers name rest

end

/-- The fields that named values give, in order. -/
def ofFields (fields : List (String × Json)) : List (String × String) :=
  fields.flatMap fun field => ofValue field.1 field.2

@[simp] theorem ofFields_nil : ofFields [] = [] := rfl

end Query

/-- A URL with fields added to its query. Any named value at all gives it a query,
which may be empty. -/
def Url.addQuery (url : Url) (fields : List (String × Json)) : Url :=
  if fields.isEmpty then url
  else
    let given := url.query.toList.filter (· ≠ "")
    let added := (Query.ofFields fields).map UrlEscape.formPair
    { url with query := some (String.intercalate "&" (given ++ added)) }

end ViewSchema
