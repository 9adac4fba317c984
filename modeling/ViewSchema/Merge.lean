import ViewSchema.Json.Value

/-!
# Merging

How overrides are laid over a section. A deep merge goes member by member into
objects and replaces everything else; a mutation replaces whole fields, except
the two that are merged deeply.
-/

namespace ViewSchema

mutual

/-- Lay one value over another one. -/
def deepMerge (base overlay : Json) : Json :=
  match overlay with
  | .object fields =>
    match base with
    | .object baseFields => .object (deepMergeFields baseFields fields)
    | _ => .object fields
  | other => other

/-- Lay fields over fields, from first to last. -/
def deepMergeFields (base : List (String × Json)) (overlay : List (String × Json)) :
    List (String × Json) :=
  match overlay with
  | [] => base
  | (name, value) :: rest =>
    let merged := match base.lookup name with
      | some existing => deepMerge existing value
      | none => value
    deepMergeFields (Fields.set base name merged) rest

end

/-- The fields that a mutation merges deeply. -/
def deepMergedFields : List String := ["style", "_props"]

/-- Lay one field of a mutation over a section. -/
def applyOverride (base : List (String × Json)) (name : String) (value : Json) :
    List (String × Json) :=
  match base.lookup name with
  | some existing =>
    if deepMergedFields.contains name && value.isObject && existing.isObject then
      Fields.set base name (deepMerge existing value)
    else Fields.set base name value
  | none => Fields.set base name value

/-- Lay a mutation over a section. -/
def applyMutation (base overrides : List (String × Json)) : List (String × Json) :=
  overrides.foldl (fun acc field => applyOverride acc field.1 field.2) base

/-- Lay a mutation over a section, if there is one. -/
def applyMutation? (base : List (String × Json)) (overrides : Option (List (String × Json))) :
    List (String × Json) :=
  match overrides with
  | some fields => applyMutation base fields
  | none => base

end ViewSchema
