import ViewSchema.Config.Setting
import ViewSchema.Digest.Blake3
import ViewSchema.Json.Text

/-!
# Route configurations

Routes as they are written: nested below each other, with fields of their own
kind besides the known ones.

Main definitions:

- `RouteConfig.ofSetting?` and `RouteConfig.toJson` read and write a route.
- `RouteConfig.fingerprint` tells lists of routes apart by their written form.
-/

namespace ViewSchema

/-- A route with the routes below it. -/
structure RouteConfig where
  path : String
  name : Option String
  component : Option String
  /-- Routes that are not active do not exist, nor do those below them. -/
  active : Bool
  /-- A view of its own; others are found by name. -/
  view : Option Json
  routes : List RouteConfig
  extra : List (String × Json)
deriving Repr

namespace RouteConfig

instance : Inhabited RouteConfig := ⟨⟨"", none, none, true, none, [], []⟩⟩

/-- The fields that have a meaning of their own. -/
def knownFields : List String := ["path", "name", "component", "active", "view", "routes"]

/-- The other fields. -/
def extraOf (fields : List (String × Setting)) : List (String × Json) :=
  Fields.ofList (Setting.toFields (fields.filter fun field => !knownFields.contains field.1))

/-- A route with given routes below it; `nested` lists the values of every field
for such routes, of which there may be one. -/
def assemble? (fields : List (String × Setting)) (nested : List (List RouteConfig)) :
    Option RouteConfig := do
  let text := Setting.optional? Setting.string?
  let path ← Setting.field? fields "path" Setting.string? none
  let name ← Setting.field? fields "name" text (some none)
  let component ← Setting.field? fields "component" text (some none)
  let active ← Setting.field? fields "active" Setting.bool? (some true)
  let view ← Setting.field? fields "view"
    (Setting.optional? fun view => some view.toJson) (some none)
  let routes ← match nested with
    | [] => some []
    | [routes] => some routes
    | _ => none
  some ⟨path, name, component, active, view, routes, extraOf fields⟩

mutual

/-- Read a route. -/
def ofSetting? : Setting → Option RouteConfig
  | .table fields => (ofNested? fields).bind (assemble? fields)
  | _ => none

/-- Read a list of routes. -/
def ofList? : Setting → Option (List RouteConfig)
  | .list items => ofItems? items
  | _ => none

def ofItems? : List Setting → Option (List RouteConfig)
  | [] => some []
  | x :: xs => do
    let route ← ofSetting? x
    let routes ← ofItems? xs
    some (route :: routes)

/-- Read every field that holds routes. -/
def ofNested? : List (String × Setting) → Option (List (List RouteConfig))
  | [] => some []
  | (name, value) :: rest =>
    if name = "routes" then do
      let routes ← ofList? value
      let others ← ofNested? rest
      some (routes :: others)
    else ofNested? rest

end

/-- An optional field, left out where it has no value. -/
def present (name : String) (value : Option Json) : List (String × Json) :=
  match value with
  | some v => [(name, v)]
  | none => []

mutual

/-- The written form of a route. -/
def toJson : RouteConfig → Json
  | ⟨path, name, component, active, view, routes, extra⟩ =>
    .object ([("path", .string path)] ++ present "name" (name.map .string)
      ++ present "component" (component.map .string) ++ [("active", .bool active)]
      ++ present "view" view
      ++ (if routes.isEmpty then [] else [("routes", .array (toItems routes))]) ++ extra)

def toItems : List RouteConfig → List Json
  | [] => []
  | r :: rs => toJson r :: toItems rs

end

/-- The written form of a list of routes. -/
def listToJson (routes : List RouteConfig) : Json := .array (toItems routes)

/-- The digest of the written form. -/
def fingerprint (routes : List RouteConfig) : String := Blake3.ofText (listToJson routes).text

end RouteConfig

end ViewSchema
