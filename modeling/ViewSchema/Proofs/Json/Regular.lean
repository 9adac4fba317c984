import ViewSchema.Merge
import ViewSchema.Proofs.Json.Fields

/-!
# Regular values

A value read from a text has each name once in every object.  Such values are called
regular here; everything that puts overrides over them keeps them regular.

Main results:

- Definition `Json.Regular`: distinct names in every object, at every depth.
- Theorem `Json.Regular.deepMerge`: a deep merge of regular values is regular.
- Theorem `Json.Regular.applyMutation?`: so is a section under regular overrides.
-/

namespace ViewSchema

namespace Json

mutual

/-- No object in the value repeats a name, at any depth. -/
def Regular : Json → Prop
  | array items => RegularItems items
  | object fields => Fields.Distinct fields ∧ RegularFields fields
  | _ => True

def RegularItems : List Json → Prop
  | [] => True
  | x :: xs => Regular x ∧ RegularItems xs

def RegularFields : List (String × Json) → Prop
  | [] => True
  | (_, x) :: xs => Regular x ∧ RegularFields xs

end

theorem regularItems_iff {items : List Json} : RegularItems items ↔ ∀ x ∈ items, x.Regular := by
  induction items with
  | nil => simp [RegularItems]
  | cons x xs ih => simp [RegularItems, ih]

theorem regularFields_iff {fields : List (String × Json)} :
    RegularFields fields ↔ ∀ f ∈ fields, f.2.Regular := by
  induction fields with
  | nil => simp [RegularFields]
  | cons f fs ih => simp [RegularFields, ih]

/-- An object is regular when its names are distinct and its members regular. -/
theorem regular_object_iff {fields : List (String × Json)} :
    (object fields).Regular ↔ Fields.Distinct fields ∧ ∀ f ∈ fields, f.2.Regular := by
  rw [Regular, regularFields_iff]

theorem regular_array_iff {items : List Json} :
    (array items).Regular ↔ ∀ x ∈ items, x.Regular := by
  rw [Regular, regularItems_iff]

namespace Regular

variable {fields : List (String × Json)} {name : String} {value : Json}

theorem distinct (h : (object fields).Regular) : Fields.Distinct fields :=
  (regular_object_iff.1 h).1

/-- A member that is found is regular. -/
theorem lookup (h : (object fields).Regular) (hfind : fields.lookup name = some value) :
    value.Regular :=
  (regular_object_iff.1 h).2 _ (Fields.mem_of_lookup hfind)

/-- Setting a member to a regular value keeps an object regular. -/
theorem set (h : (object fields).Regular) (hvalue : value.Regular) (name : String) :
    (object (Fields.set fields name value)).Regular := by
  rw [regular_object_iff] at h ⊢
  refine ⟨h.1.set name value, ?_⟩
  intro field hfield
  rcases Fields.mem_set hfield with hold | hnew
  · exact h.2 field hold
  · exact hnew ▸ hvalue

/-- Setting several members to regular values keeps an object regular. -/
theorem setAll {others : List (String × Json)} (h : (object fields).Regular)
    (hothers : ∀ f ∈ others, f.2.Regular) : (object (Fields.setAll fields others)).Regular := by
  induction others generalizing fields with
  | nil => exact h
  | cons field rest ih =>
    have hfirst := h.set (hothers field List.mem_cons_self) field.1
    exact ih hfirst fun f hf => hothers f (List.mem_cons_of_mem _ hf)

end Regular

/-! ## Overrides -/

mutual

/-- Laying a regular value over a regular one gives a regular one. -/
theorem Regular.deepMerge {base : Json} (hbase : base.Regular) :
    ∀ {overlay : Json}, overlay.Regular → (ViewSchema.deepMerge base overlay).Regular
  | .object fields, hover => by
    cases base with
    | object baseFields =>
      rw [ViewSchema.deepMerge]
      exact Regular.deepMergeFields hbase (regular_object_iff.1 hover).2
    | _ => simpa only [ViewSchema.deepMerge] using hover
  | .array _, hover => by simpa only [ViewSchema.deepMerge] using hover
  | .null, _ | .bool _, _ | .number _, _ | .string _, _ => by
    simp only [ViewSchema.deepMerge, Regular]

/-- Laying regular fields over a regular object gives a regular one. -/
theorem Regular.deepMergeFields {base : List (String × Json)} (hbase : (object base).Regular) :
    ∀ {overlay : List (String × Json)}, (∀ f ∈ overlay, f.2.Regular) →
      (object (ViewSchema.deepMergeFields base overlay)).Regular
  | [], _ => by rw [ViewSchema.deepMergeFields]; exact hbase
  | (name, value) :: rest, hover => by
    have hvalue : value.Regular := hover _ List.mem_cons_self
    have hrest : ∀ f ∈ rest, f.2.Regular := fun f hf => hover f (List.mem_cons_of_mem _ hf)
    rw [ViewSchema.deepMergeFields]
    refine Regular.deepMergeFields (hbase.set ?_ name) hrest
    cases hfind : base.lookup name with
    | none => exact hvalue
    | some existing => exact Regular.deepMerge (hbase.lookup hfind) hvalue

end

/-- One override keeps a section regular. -/
theorem Regular.applyOverride {base : List (String × Json)} {value : Json}
    (h : (object base).Regular) (hvalue : value.Regular) (name : String) :
    (object (ViewSchema.applyOverride base name value)).Regular := by
  unfold ViewSchema.applyOverride
  split
  · rename_i existing hfind
    split
    · exact h.set ((h.lookup hfind).deepMerge hvalue) name
    · exact h.set hvalue name
  · exact h.set hvalue name

/-- Overrides keep a section regular. -/
theorem Regular.applyMutation {base overrides : List (String × Json)}
    (h : (object base).Regular) (hover : ∀ f ∈ overrides, f.2.Regular) :
    (object (ViewSchema.applyMutation base overrides)).Regular := by
  induction overrides generalizing base with
  | nil => exact h
  | cons field rest ih =>
    have hfirst := h.applyOverride (hover field List.mem_cons_self) field.1
    exact ih hfirst fun f hf => hover f (List.mem_cons_of_mem _ hf)

/-- Overrides that may be missing keep a section regular. -/
theorem Regular.applyMutation? {base : List (String × Json)}
    {overrides : Option (List (String × Json))} (h : (object base).Regular)
    (hover : ∀ fields, overrides = some fields → (object fields).Regular) :
    (object (ViewSchema.applyMutation? base overrides)).Regular := by
  cases overrides with
  | none => exact h
  | some fields => exact h.applyMutation (regular_object_iff.1 (hover fields rfl)).2

end Json

end ViewSchema
