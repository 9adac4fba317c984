import ViewSchema.Proofs.Json.Fields

/-!
# Changing the values of fields

A function applied to every value of a list of fields, under the same names and in the same
order.  Looking up, setting and removing fields does not care whether it comes before or
after.

Main results:

- Definition `Fields.mapValues`: a function applied to every value.
- Theorem `Fields.lookup_mapValues`: what is found is the changed value.
- Theorem `Fields.swapRemove_mapValues`: removing a field before or after gives the same.
-/

namespace ViewSchema

namespace Fields

variable {α β : Type} {f : α → β}

/-- Apply a function to every value. -/
def mapValues (f : α → β) (fields : List (String × α)) : List (String × β) :=
  fields.map fun field => (field.1, f field.2)

@[simp] theorem mapValues_nil (f : α → β) : mapValues f [] = [] := rfl

@[simp] theorem mapValues_cons (f : α → β) (field : String × α) (rest : List (String × α)) :
    mapValues f (field :: rest) = (field.1, f field.2) :: mapValues f rest := rfl

/-- Values that stay as they are leave the fields as they are. -/
theorem mapValues_eq_self {f : α → α} {fields : List (String × α)}
    (h : ∀ field ∈ fields, f field.2 = field.2) : mapValues f fields = fields := by
  induction fields with
  | nil => rfl
  | cons field rest ih =>
    rw [mapValues_cons, h field List.mem_cons_self,
      ih fun other hother => h other (List.mem_cons_of_mem _ hother)]

/-- What is found is the changed value. -/
@[simp] theorem lookup_mapValues (fields : List (String × α)) (name : String) :
    (mapValues f fields).lookup name = (fields.lookup name).map f := by
  induction fields with
  | nil => rfl
  | cons field rest ih =>
    rw [mapValues_cons, lookup_cons, lookup_cons, ih]
    split <;> rfl

/-- Setting a changed value. -/
theorem set_mapValues (fields : List (String × α)) (name : String) (value : α) :
    set (mapValues f fields) name (f value) = mapValues f (set fields name value) := by
  induction fields with
  | nil => rfl
  | cons field rest ih =>
    rw [mapValues_cons, set, set, ih]
    split <;> rfl

/-- Setting several changed values. -/
theorem setAll_mapValues (fields others : List (String × α)) :
    setAll (mapValues f fields) (mapValues f others) = mapValues f (setAll fields others) := by
  induction others generalizing fields with
  | nil => rfl
  | cons field rest ih =>
    have hfirst := set_mapValues (f := f) fields field.1 field.2
    show setAll (set (mapValues f fields) field.1 (f field.2)) (mapValues f rest) = _
    rw [hfirst]
    exact ih _

/-- Removing a field. -/
theorem swapRemove_mapValues (fields : List (String × α)) (name : String) :
    swapRemove (mapValues f fields) name = mapValues f (swapRemove fields name) := by
  have hfind : (mapValues f fields).findIdx? (·.1 == name) = fields.findIdx? (·.1 == name) := by
    rw [mapValues, List.findIdx?_map]
    rfl
  have hlast : (mapValues f fields).getLast? =
      fields.getLast?.map fun field => (field.1, f field.2) := List.getLast?_map
  simp only [swapRemove, hfind, hlast]
  cases fields.findIdx? (·.1 == name) with
  | none => rfl
  | some i =>
    cases fields.getLast? with
    | none => rfl
    | some last => simp only [Option.map_some, mapValues, List.map_dropLast, List.map_set]

end Fields

end ViewSchema
