import ViewSchema.Json.Value

/-!
# Nesting depth

How deep a value is nested, as the measure of recursions that go into values they
have put together themselves. Setting and removing fields makes nothing deeper.
Beside it stands the list of everything that a value is made of.
-/

namespace ViewSchema

namespace Json

mutual

/-- How deep a value is nested; leaves have depth one. -/
def depth : Json → Nat
  | array items => 1 + depthOfItems items
  | object fields => 1 + depthOfFields fields
  | _ => 1

def depthOfItems : List Json → Nat
  | [] => 0
  | x :: xs => max (depth x) (depthOfItems xs)

def depthOfFields : List (String × Json) → Nat
  | [] => 0
  | (_, x) :: xs => max (depth x) (depthOfFields xs)

end

mutual

/-- Everything that stands in a value, at any depth, the value itself first. -/
def parts : Json → List Json
  | array items => array items :: partsOfItems items
  | object fields => object fields :: partsOfFields fields
  | leaf => [leaf]

def partsOfItems : List Json → List Json
  | [] => []
  | x :: xs => parts x ++ partsOfItems xs

def partsOfFields : List (String × Json) → List Json
  | [] => []
  | (_, x) :: xs => parts x ++ partsOfFields xs

end

/-- An item is nested no deeper than its list. -/
theorem depth_le_of_mem_items {x : Json} {xs : List Json} (h : x ∈ xs) :
    x.depth ≤ depthOfItems xs := by
  induction xs with
  | nil => simp at h
  | cons y ys ih =>
    rcases List.mem_cons.1 h with rfl | h
    · simp only [depthOfItems]; omega
    · have := ih h
      simp only [depthOfItems]; omega

/-- A field is nested no deeper than the fields it stands among. -/
theorem depth_le_of_mem_fields {f : String × Json} {fields : List (String × Json)}
    (h : f ∈ fields) : f.2.depth ≤ depthOfFields fields := by
  induction fields with
  | nil => simp at h
  | cons g gs ih =>
    obtain ⟨n, v⟩ := g
    rcases List.mem_cons.1 h with rfl | h
    · simp only [depthOfFields]; omega
    · have := ih h
      simp only [depthOfFields]; omega

/-- Items are nested less deeply than their array. -/
theorem depth_lt_of_mem_array {item : Json} {items : List Json} (h : item ∈ items) :
    item.depth < (array items).depth := by
  have hle := depth_le_of_mem_items h
  rw [depth]
  omega

/-- Members are nested less deeply than their object. -/
theorem depth_lt_of_mem_object {field : String × Json} {fields : List (String × Json)}
    (h : field ∈ fields) : field.2.depth < (object fields).depth := by
  have hle := depth_le_of_mem_fields h
  rw [depth]
  omega

/-- A bound on every field bounds the fields. -/
theorem depthOfFields_le {fields : List (String × Json)} {bound : Nat}
    (h : ∀ f ∈ fields, f.2.depth ≤ bound) : depthOfFields fields ≤ bound := by
  induction fields with
  | nil => simp [depthOfFields]
  | cons g gs ih =>
    obtain ⟨n, v⟩ := g
    have hv := h (n, v) List.mem_cons_self
    have hgs := ih fun f hf => h f (List.mem_cons_of_mem _ hf)
    simp only [depthOfFields]
    exact Nat.max_le.2 ⟨hv, hgs⟩

/-- A field that is found is nested no deeper than the fields. -/
theorem depth_le_of_lookup {fields : List (String × Json)} {name : String} {v : Json}
    (h : fields.lookup name = some v) : v.depth ≤ depthOfFields fields := by
  induction fields with
  | nil => simp at h
  | cons g gs ih =>
    obtain ⟨n, w⟩ := g
    rw [Fields.lookup_cons] at h
    simp only [depthOfFields]
    split at h
    · cases h; exact Nat.le_max_left _ _
    · exact Nat.le_trans (ih h) (Nat.le_max_right _ _)

/-- Setting a field makes the fields no deeper than the value set. -/
theorem depthOfFields_set (fields : List (String × Json)) (name : String) (v : Json) :
    depthOfFields (Fields.set fields name v) ≤ max (depthOfFields fields) v.depth := by
  induction fields with
  | nil => simp [Fields.set, depthOfFields]
  | cons g gs ih =>
    obtain ⟨n, w⟩ := g
    by_cases hn : n = name
    · simp only [Fields.set, hn, if_true, depthOfFields]; omega
    · simp only [Fields.set, hn, if_false, depthOfFields]; omega

end Json

namespace Fields

/-- What is left after removing a field was there before. -/
theorem mem_of_mem_swapRemove {α : Type} {fields : List (String × α)} {name : String}
    {f : String × α} (h : f ∈ swapRemove fields name) : f ∈ fields := by
  unfold swapRemove at h
  split at h
  · rename_i i last _ hlast
    rcases List.mem_or_eq_of_mem_set (List.dropLast_subset _ h) with h | rfl
    · exact h
    · exact List.mem_of_getLast? hlast
  · exact h

end Fields

end ViewSchema
