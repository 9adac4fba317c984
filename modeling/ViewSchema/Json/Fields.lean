/-!
# Ordered fields

Fields of an object: names with values, in the order in which they were first
written. Setting a field that exists keeps its place, a new one goes to the end,
and the place of a removed field is taken by the last one.

Main statements:

- `lookup_set` and `names_set` say what setting a field does to look-up and to
  the order of names.
- `Distinct.set`: setting a field keeps names distinct.
-/

namespace ViewSchema

namespace Fields

variable {α : Type}

/-- Set a field: in place when it exists, else at the end. -/
def set : List (String × α) → String → α → List (String × α)
  | [], name, value => [(name, value)]
  | field :: rest, name, value =>
    if field.1 = name then (field.1, value) :: rest else field :: set rest name value

/-- Set several fields, one after the other. -/
def setAll (fields others : List (String × α)) : List (String × α) :=
  others.foldl (fun acc field => set acc field.1 field.2) fields

/-- Fields from a list of pairs: a repeated name keeps its first place and its
last value. -/
def ofList (pairs : List (String × α)) : List (String × α) := setAll [] pairs

/-- Remove a field; the last one takes its place. -/
def swapRemove (fields : List (String × α)) (name : String) : List (String × α) :=
  match fields.findIdx? (·.1 == name), fields.getLast? with
  | some i, some last => (List.set fields i last).dropLast
  | _, _ => fields

/-- Set a field only where it is missing. -/
def setIfMissing (fields : List (String × α)) (name : String) (value : α) :
    List (String × α) :=
  if (fields.lookup name).isSome then fields else fields ++ [(name, value)]

/-- Change the value of a field in place. -/
def modify (fields : List (String × α)) (name : String) (f : α → α) : List (String × α) :=
  match fields with
  | [] => []
  | field :: rest =>
    if field.1 = name then (field.1, f field.2) :: rest else field :: modify rest name f

/-- The names, in order. -/
def names (fields : List (String × α)) : List String := fields.map Prod.fst

/-- No name occurs twice. -/
def Distinct (fields : List (String × α)) : Prop := (names fields).Nodup

@[simp] theorem names_nil : names ([] : List (String × α)) = [] := rfl

@[simp] theorem names_cons (field : String × α) (rest : List (String × α)) :
    names (field :: rest) = field.1 :: names rest := rfl

@[simp] theorem set_nil (name : String) (value : α) :
    set [] name value = [(name, value)] := rfl

/-- Look-up reads fields from the front. -/
theorem lookup_cons (field : String × α) (rest : List (String × α)) (name : String) :
    (field :: rest).lookup name =
      if name = field.1 then some field.2 else rest.lookup name := by
  by_cases h : name = field.1
  · rw [List.lookup_cons, if_pos h, beq_iff_eq.2 h]
  · rw [List.lookup_cons, if_neg h, beq_eq_false_iff_ne.2 h]

/-- Look-up after setting a field. -/
theorem lookup_set (fields : List (String × α)) (name other : String) (value : α) :
    (set fields name value).lookup other =
      if other = name then some value else fields.lookup other := by
  induction fields with
  | nil => simp [lookup_cons]
  | cons field rest ih =>
    by_cases hn : field.1 = name
    · simp only [set, hn, if_true, lookup_cons]
      split <;> rfl
    · simp only [set, hn, if_false, lookup_cons, ih]
      split
      · rename_i h
        rw [if_neg (h ▸ hn)]
      · rfl

/-- Filtering by name keeps the fields of the names that stay. -/
theorem lookup_filter (fields : List (String × α)) (keep : String → Bool) (name : String) :
    (fields.filter fun field => keep field.1).lookup name =
      if keep name then fields.lookup name else none := by
  induction fields with
  | nil => simp
  | cons field rest ih =>
    rw [List.filter_cons, lookup_cons]
    by_cases hkeep : keep field.1 = true
    · rw [if_pos hkeep, lookup_cons, ih]
      by_cases hname : name = field.1
      · simp [hname, hkeep]
      · simp [hname]
    · rw [if_neg hkeep, ih]
      by_cases hname : name = field.1
      · simp [hname, hkeep]
      · simp [hname]

/-- Setting a field keeps the order of names and appends a new one. -/
theorem names_set (fields : List (String × α)) (name : String) (value : α) :
    names (set fields name value) =
      if name ∈ names fields then names fields else names fields ++ [name] := by
  induction fields with
  | nil => simp [set, names]
  | cons field rest ih =>
    obtain ⟨n, v⟩ := field
    by_cases hn : n = name
    · subst hn
      simp [set]
    · have hne : name ≠ n := fun h => hn h.symm
      by_cases hr : name ∈ names rest <;> simp [set, hn, hne, ih, hr]

/-- Setting a field keeps names distinct. -/
theorem Distinct.set {fields : List (String × α)} (h : Distinct fields) (name : String)
    (value : α) : Distinct (Fields.set fields name value) := by
  unfold Distinct at h ⊢
  rw [names_set]
  split
  · exact h
  · rename_i hmem
    rw [List.nodup_append]
    refine ⟨h, by simp, ?_⟩
    intro a ha b hb
    simp only [List.mem_singleton] at hb
    subst hb
    exact fun hab => hmem (hab ▸ ha)

end Fields

end ViewSchema
