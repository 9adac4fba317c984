import ViewSchema.Compile.Compiler
import ViewSchema.Proofs.Json.Mapping
import ViewSchema.Proofs.Json.Regular
import ViewSchema.Responsive

/-!
# Values at a breakpoint

Laying overrides over a schema changes objects only, and everything that the compiler reads
from a single value without going into it stays as it was.

Main results:

- Definition `insideAt`: fields with overrides laid over the sections inside of them.
- Theorem `read_applyBreakpoint`: what is read from a value without going into it stays.
- Theorem `Section.name?_insideAt`: so does the name of a section, also one in parts.
- Theorem `depth_applyBreakpoint`: nothing gets deeper.
- Theorem `Json.Regular.responsiveProps`: overrides keep a section regular.
-/

namespace ViewSchema

variable {table : BreakpointTable} {breakpoint : String}

/-- Fields with overrides laid over the sections inside of them. -/
def insideAt (table : BreakpointTable) (breakpoint : String) (fields : List (String × Json)) :
    List (String × Json) :=
  Fields.mapValues (applyBreakpoint table breakpoint) fields

/-- An object gets its own overrides first, then those of the sections inside of it. -/
theorem applyBreakpoint_fields (table : BreakpointTable) (breakpoint : String)
    (fields : List (String × Json)) :
    applyBreakpoint table breakpoint (.object fields) =
      .object (insideAt table breakpoint (fieldsAt table breakpoint fields)) :=
  applyBreakpoint_object table breakpoint fields

/-- Values that are neither arrays nor objects stay as they are. -/
theorem applyBreakpoint_eq_self {value : Json} (harray : value.isArray = false)
    (hobject : value.isObject = false) : applyBreakpoint table breakpoint value = value := by
  cases value with
  | array => cases harray
  | object => cases hobject
  | _ => unfold applyBreakpoint; rfl

/-! ## What is read from a value without going into it -/

/-- What does not depend on the members of arrays and objects is read alike. -/
theorem read_applyBreakpoint {α : Type} {read : Json → α}
    (harray : ∀ items others, read (.array items) = read (.array others))
    (hobject : ∀ fields others, read (.object fields) = read (.object others)) (value : Json) :
    read (applyBreakpoint table breakpoint value) = read value := by
  cases value with
  | array items => rw [applyBreakpoint_array]; exact harray _ _
  | object fields => rw [applyBreakpoint_object]; exact hobject _ _
  | _ => rw [applyBreakpoint_eq_self rfl rfl]

/-- Overrides make no object of another value, nor the other way round. -/
@[simp] theorem isObject_applyBreakpoint (value : Json) :
    (applyBreakpoint table breakpoint value).isObject = value.isObject :=
  read_applyBreakpoint (fun _ _ => rfl) (fun _ _ => rfl) value

/-- Texts have no overrides. -/
@[simp] theorem string?_applyBreakpoint (value : Json) :
    (applyBreakpoint table breakpoint value).string? = value.string? :=
  read_applyBreakpoint (fun _ _ => rfl) (fun _ _ => rfl) value

/-- Numbers have no overrides. -/
@[simp] theorem nat?_applyBreakpoint (value : Json) :
    (applyBreakpoint table breakpoint value).nat? = value.nat? :=
  read_applyBreakpoint (fun _ _ => rfl) (fun _ _ => rfl) value

/-- Overrides make nothing null. -/
@[simp] theorem isNull_applyBreakpoint (value : Json) :
    (applyBreakpoint table breakpoint value).isNull = value.isNull :=
  read_applyBreakpoint (fun _ _ => rfl) (fun _ _ => rfl) value

/-- Overrides make nothing false. -/
@[simp] theorem isFalse_applyBreakpoint (value : Json) :
    (applyBreakpoint table breakpoint value).isFalse = value.isFalse :=
  read_applyBreakpoint (fun _ _ => rfl) (fun _ _ => rfl) value

/-- A name stays, also when it is given in parts. -/
@[simp] theorem Section.joinedName?_applyBreakpoint (value : Json) :
    joinedName? (applyBreakpoint table breakpoint value) = joinedName? value := by
  have hparts : ∀ items : List Json,
      (items.map (applyBreakpoint table breakpoint)).filterMap Json.string? =
        items.filterMap Json.string? := by
    intro items
    rw [List.filterMap_map]
    exact congrArg (List.filterMap · items) (funext string?_applyBreakpoint)
  cases value with
  | array items => simp only [applyBreakpoint_array, joinedName?, hparts]
  | object fields => rw [applyBreakpoint_object]; rfl
  | _ => rw [applyBreakpoint_eq_self rfl rfl]

/-! ## What is read from fields without going into them -/

/-- Overrides inside of fields are laid over the value of each field. -/
@[simp] theorem lookup_insideAt (fields : List (String × Json)) (name : String) :
    (insideAt table breakpoint fields).lookup name =
      (fields.lookup name).map (applyBreakpoint table breakpoint) :=
  Fields.lookup_mapValues fields name

/-- Fields with a text keep it. -/
@[simp] theorem Fields.string?_insideAt (fields : List (String × Json)) (name : String) :
    Fields.string? (insideAt table breakpoint fields) name = Fields.string? fields name := by
  unfold Fields.string?
  rw [lookup_insideAt]
  cases fields.lookup name <;> simp

namespace Section

/-- Overrides inside of the fields of a section do not change its name. -/
@[simp] theorem name?_insideAt (fields : List (String × Json)) :
    name? (insideAt table breakpoint fields) = name? fields := by
  unfold name?
  rw [lookup_insideAt]
  cases fields.lookup "name" <;> simp

/-- Nor whether it is active. -/
@[simp] theorem isInactive_insideAt (fields : List (String × Json)) :
    isInactive (insideAt table breakpoint fields) = isInactive fields := by
  unfold isInactive
  rw [lookup_insideAt]
  cases fields.lookup "active" <;> simp

/-- Fields can be left out before or after. -/
theorem without_insideAt (fields : List (String × Json)) (names : List String) :
    without (insideAt table breakpoint fields) names =
      insideAt table breakpoint (without fields names) := by
  induction names generalizing fields with
  | nil => rfl
  | cons name rest ih =>
    show without (Fields.swapRemove (insideAt table breakpoint fields) name) rest = _
    rw [insideAt, Fields.swapRemove_mapValues]
    exact ih _

/-- What is handed on to a component can be chosen before or after. -/
@[simp] theorem handedOn_insideAt (fields : List (String × Json)) :
    handedOn (insideAt table breakpoint fields) = insideAt table breakpoint (handedOn fields) :=
  without_insideAt fields reservedFields

/-- Labels that are present can be chosen before or after. -/
@[simp] theorem present_insideAt (fields : List (String × Json)) (names : List String) :
    present (insideAt table breakpoint fields) names =
      insideAt table breakpoint (present fields names) := by
  induction names with
  | nil => rfl
  | cons name rest ih =>
    unfold present at ih ⊢
    rw [List.filterMap_cons, List.filterMap_cons, lookup_insideAt]
    cases fields.lookup name with
    | none => exact ih
    | some value => exact congrArg _ ih

end Section

/-- Texts are formatted alike. -/
theorem Formatter.format_insideAt (f : Formatter) (value : Json) (fields : List (String × Json)) :
    f.format value (some (insideAt table breakpoint fields)) = f.format value (some fields) := by
  have hdecimals : ((insideAt table breakpoint fields).lookup "decimals").bind Json.nat? =
      (fields.lookup "decimals").bind Json.nat? := by
    rw [lookup_insideAt]
    cases fields.lookup "decimals" <;> simp
  simp only [format, formatted?, Option.bind_some, hdecimals, Fields.string?_insideAt]

/-! ## Depth and names -/

/-- Items of bounded depth make lists of bounded depth. -/
theorem Json.depthOfItems_le {items : List Json} {bound : Nat}
    (h : ∀ item ∈ items, item.depth ≤ bound) : Json.depthOfItems items ≤ bound := by
  induction items with
  | nil => exact Nat.zero_le _
  | cons item rest ih =>
    have hfirst := h item List.mem_cons_self
    have hrest := ih fun other hother => h other (List.mem_cons_of_mem _ hother)
    rw [Json.depthOfItems]
    omega

/-- A schema at a breakpoint is nested no deeper than it was written. -/
theorem depth_applyBreakpoint (table : BreakpointTable) (breakpoint : String) (schema : Json) :
    (applyBreakpoint table breakpoint schema).depth ≤ schema.depth := by
  induction hdepth : schema.depth using Nat.strongRecOn generalizing schema with
  | ind depth ih =>
    subst hdepth
    cases schema with
    | array items =>
      rw [applyBreakpoint_array, Json.depth, Json.depth]
      refine Nat.add_le_add_left (Json.depthOfItems_le fun item hitem => ?_) 1
      obtain ⟨inner, hinner, rfl⟩ := List.mem_map.1 hitem
      have hlt : inner.depth < (Json.array items).depth := by
        have hle := Json.depth_le_of_mem_items hinner
        rw [Json.depth]
        omega
      exact Nat.le_trans (ih inner.depth hlt inner rfl) (Json.depth_le_of_mem_items hinner)
    | object fields =>
      rw [applyBreakpoint_object, Json.depth, Json.depth]
      have hfields := depthOfFields_fieldsAt table breakpoint fields
      refine Nat.add_le_add_left (Json.depthOfFields_le fun field hfield => ?_) 1
      obtain ⟨inner, hinner, rfl⟩ := List.mem_map.1 hfield
      have hle := Json.depth_le_of_mem_fields hinner
      have hlt : inner.2.depth < (Json.object fields).depth := by
        rw [Json.depth]
        omega
      exact Nat.le_trans (ih inner.2.depth hlt inner.2 rfl) (Nat.le_trans hle hfields)
    | _ => exact Nat.le_of_eq (congrArg Json.depth (applyBreakpoint_eq_self rfl rfl))

namespace Json.Regular

variable {fields : List (String × Json)}

/-- Removing a field keeps an object regular. -/
theorem swapRemove (h : (object fields).Regular) (name : String) :
    (object (Fields.swapRemove fields name)).Regular := by
  rw [regular_object_iff] at h ⊢
  exact ⟨h.1.swapRemove name, fun field hfield => h.2 field (Fields.mem_of_mem_swapRemove hfield)⟩

/-- Overrides keep a section regular. -/
theorem responsiveProps (h : (object fields).Regular) (table : BreakpointTable)
    (breakpoint : String) :
    (object (ViewSchema.responsiveProps table breakpoint fields)).Regular := by
  have hdrop : ∀ (names : List String) {rest : List (String × Json)}, (object rest).Regular →
      (object (names.foldl Fields.swapRemove rest)).Regular := by
    intro names
    induction names with
    | nil => exact fun hrest => hrest
    | cons name names ih => exact fun hrest => ih (hrest.swapRemove name)
  have hlay : ∀ (names : List String) {merged : List (String × Json)},
      (object merged).Regular →
      (object (names.foldl (applyBreakpointOverride fields) merged)).Regular := by
    intro names
    induction names with
    | nil => exact fun hmerged => hmerged
    | cons name names ih =>
      intro merged hmerged
      refine ih ?_
      unfold applyBreakpointOverride
      split
      · rename_i overrides hfind
        exact hmerged.applyMutation (regular_object_iff.1 (h.lookup hfind)).2
      · exact hmerged
  exact hlay _ (hdrop _ h)

end Json.Regular

end ViewSchema
