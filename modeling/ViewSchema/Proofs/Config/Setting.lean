import ViewSchema.Config.Setting
import ViewSchema.Proofs.Json.Mapping
import ViewSchema.Proofs.Json.Parsed

/-!
# Settings of values

A JSON value that is taken as a setting says the same: it comes back, with repeated names merged,
and the fields of an object are read one by one.

Main results:

- Theorem `Setting.toJson_ofJson`: a value comes back with repeated names merged.
- Theorem `Setting.field?_ofFields`: a field of an object is read from its value, or has its
  standard one.
-/

namespace ViewSchema

namespace Setting

mutual

/-- A value comes back with repeated names merged. -/
theorem toJson_ofJson : ∀ v : Json, (ofJson v).toJson = v.distinct
  | .null | .bool _ | .number _ | .string _ => rfl
  | .array items => by rw [ofJson, toJson, toItems_ofItems items, Json.distinct]
  | .object fields => by rw [ofJson, toJson, toFields_ofFields fields, Json.distinct]

theorem toItems_ofItems : ∀ items : List Json, toItems (ofItems items) = Json.distinctItems items
  | [] => rfl
  | x :: xs => by
    rw [ofItems, toItems, toJson_ofJson x, toItems_ofItems xs, Json.distinctItems]

theorem toFields_ofFields :
    ∀ fields : List (String × Json), toFields (ofFields fields) = Json.distinctFields fields
  | [] => rfl
  | (name, x) :: xs => by
    rw [ofFields, toFields, toJson_ofJson x, toFields_ofFields xs, Json.distinctFields]

end

theorem ofFields_eq_mapValues (fields : List (String × Json)) :
    ofFields fields = Fields.mapValues ofJson fields := by
  induction fields with
  | nil => rfl
  | cons field rest ih => rw [ofFields, ih, Fields.mapValues_cons]

theorem isNull_ofJson (v : Json) : (ofJson v).isNull = v.isNull := by
  cases v <;> rfl

/-- Choosing fields by name does not touch their values. -/
theorem filter_ofFields (keep : String → Bool) (fields : List (String × Json)) :
    (ofFields fields).filter (fun field => keep field.1) =
      ofFields (fields.filter fun field => keep field.1) := by
  rw [ofFields_eq_mapValues, ofFields_eq_mapValues, Fields.mapValues, Fields.mapValues,
    List.filter_map]
  rfl

/-- A field of an object is read from its value; one that is missing has its standard value. -/
theorem field?_ofFields {α : Type} {fields : List (String × Json)} (h : Fields.Distinct fields)
    (name : String) (read : Setting → Option α) (standard : Option α) :
    field? (ofFields fields) name read standard =
      (fields.lookup name).elim standard fun v => read (ofJson v) := by
  have hfilter := filter_ofFields (fun other => other == name) fields
  rw [Fields.filter_name_of_distinct h] at hfilter
  cases hfind : fields.lookup name with
  | none =>
    simp only [hfind, Option.toList_none, List.map_nil, ofFields] at hfilter
    simp only [field?, hfilter, Option.elim_none]
  | some v =>
    simp only [hfind, Option.toList_some, List.map_cons, List.map_nil, ofFields] at hfilter
    simp only [field?, hfilter, Option.elim_some]

/-- What is read of a field is its standard value, or is read from a value of that name. -/
theorem exists_of_field? {α : Type} {fields : List (String × Json)} {name : String}
    {read : Setting → Option α} {standard : Option α} {result : α}
    (h : field? (ofFields fields) name read standard = some result) :
    standard = some result ∨ ∃ v, (name, v) ∈ fields ∧ read (ofJson v) = some result := by
  unfold field? at h
  split at h
  · exact .inl h
  · rename_i field hone
    obtain ⟨hmem, hname⟩ := List.mem_filter.1 (hone.symm ▸ List.mem_singleton.2 rfl)
    rw [ofFields_eq_mapValues] at hmem
    obtain ⟨⟨name', v⟩, hv, rfl⟩ := List.mem_map.1 hmem
    obtain rfl : name' = name := by simpa using hname
    exact .inr ⟨v, hv, h⟩
  · cases h

end Setting

end ViewSchema
