import ViewSchema.Breakpoint
import ViewSchema.Json.Depth
import ViewSchema.Merge

/-!
# Responsive schemas

A section may carry overrides under the names of breakpoints. At a breakpoint the
overrides of every name up to it are laid over the section in table order, and
the names themselves disappear.

Main definitions:

- `responsiveProps` does this for the fields of one section.
- `applyBreakpoint` does it for every section of a schema; `applyBreakpoint_object`
  is its equation on objects.
-/

namespace ViewSchema

/-- Fields without those named by a table. -/
def dropBreakpoints (table : BreakpointTable) (fields : List (String × Json)) :
    List (String × Json) :=
  table.names.foldl Fields.swapRemove fields

/-- Lay the override under one name over a section, if the fields hold one. -/
def applyBreakpointOverride (fields merged : List (String × Json)) (name : String) :
    List (String × Json) :=
  match fields.lookup name with
  | some (.object overrides) => applyMutation merged overrides
  | _ => merged

/-- The fields of a section at a breakpoint. -/
def responsiveProps (table : BreakpointTable) (breakpoint : String)
    (fields : List (String × Json)) : List (String × Json) :=
  (table.upTo breakpoint).foldl (applyBreakpointOverride fields) (dropBreakpoints table fields)

/-! ## Nothing gets deeper -/

mutual

theorem depth_deepMerge (base overlay : Json) :
    (deepMerge base overlay).depth ≤ max base.depth overlay.depth := by
  match overlay with
  | .object fields =>
    match base with
    | .object baseFields =>
      have := depthOfFields_deepMergeFields baseFields fields
      simp only [deepMerge, Json.depth]
      omega
    | .null | .bool _ | .number _ | .string _ | .array _ =>
      simp only [deepMerge]; omega
  | .null | .bool _ | .number _ | .string _ | .array _ =>
    simp only [deepMerge]; omega

theorem depthOfFields_deepMergeFields (base overlay : List (String × Json)) :
    Json.depthOfFields (deepMergeFields base overlay) ≤
      max (Json.depthOfFields base) (Json.depthOfFields overlay) := by
  match overlay with
  | [] => exact Nat.le_max_left _ _
  | (name, value) :: rest =>
    rw [deepMergeFields]
    refine Nat.le_trans (depthOfFields_deepMergeFields _ rest) ?_
    simp only [Json.depthOfFields]
    cases hl : base.lookup name with
    | none =>
      have := Json.depthOfFields_set base name value
      simp only; omega
    | some existing =>
      have hset := Json.depthOfFields_set base name (deepMerge existing value)
      have hmerge := depth_deepMerge existing value
      have hexisting := Json.depth_le_of_lookup hl
      simp only; omega

end

theorem depthOfFields_applyOverride (base : List (String × Json)) (name : String)
    (value : Json) :
    Json.depthOfFields (applyOverride base name value) ≤
      max (Json.depthOfFields base) value.depth := by
  unfold applyOverride
  split
  · rename_i existing hl
    split
    · have hset := Json.depthOfFields_set base name (deepMerge existing value)
      have hmerge := depth_deepMerge existing value
      have hexisting := Json.depth_le_of_lookup hl
      omega
    · exact Json.depthOfFields_set base name value
  · exact Json.depthOfFields_set base name value

theorem depthOfFields_applyMutation (base overrides : List (String × Json)) :
    Json.depthOfFields (applyMutation base overrides) ≤
      max (Json.depthOfFields base) (Json.depthOfFields overrides) := by
  unfold applyMutation
  induction overrides generalizing base with
  | nil => exact Nat.le_max_left _ _
  | cons field rest ih =>
    obtain ⟨name, value⟩ := field
    have hstep := depthOfFields_applyOverride base name value
    have := ih (applyOverride base name value)
    simp only [List.foldl_cons, Json.depthOfFields]
    omega

theorem depthOfFields_dropBreakpoints (table : BreakpointTable)
    (fields : List (String × Json)) :
    Json.depthOfFields (dropBreakpoints table fields) ≤ Json.depthOfFields fields := by
  unfold dropBreakpoints
  induction table.names generalizing fields with
  | nil => simp
  | cons name rest ih =>
    refine Nat.le_trans (ih _) (Json.depthOfFields_le fun f hf => ?_)
    exact Json.depth_le_of_mem_fields (Fields.mem_of_mem_swapRemove hf)

theorem depthOfFields_applyBreakpointOverride (fields merged : List (String × Json))
    (name : String) :
    Json.depthOfFields (applyBreakpointOverride fields merged name) ≤
      max (Json.depthOfFields fields) (Json.depthOfFields merged) := by
  unfold applyBreakpointOverride
  split
  · rename_i overrides hl
    have hdepth := Json.depth_le_of_lookup hl
    have := depthOfFields_applyMutation merged overrides
    simp only [Json.depth] at hdepth
    omega
  · omega

/-- At no breakpoint is a section nested deeper than it was written. -/
theorem depthOfFields_responsiveProps (table : BreakpointTable) (breakpoint : String)
    (fields : List (String × Json)) :
    Json.depthOfFields (responsiveProps table breakpoint fields) ≤
      Json.depthOfFields fields := by
  have step : ∀ (names : List String) (merged : List (String × Json)),
      Json.depthOfFields merged ≤ Json.depthOfFields fields →
      Json.depthOfFields (names.foldl (applyBreakpointOverride fields) merged) ≤
        Json.depthOfFields fields := by
    intro names
    induction names with
    | nil => exact fun _ h => h
    | cons name rest ih =>
      intro merged h
      refine ih _ ?_
      have := depthOfFields_applyBreakpointOverride fields merged name
      omega
  exact step _ _ (depthOfFields_dropBreakpoints table fields)

/-! ## Schemas -/

/-- Whether fields are those of a section rather than of a plain map. -/
def carriesOverrides (fields : List (String × Json)) : Bool :=
  (fields.lookup "name").isSome || (fields.lookup "component").isSome

/-- The fields of an object at a breakpoint: only sections have overrides. -/
def fieldsAt (table : BreakpointTable) (breakpoint : String) (fields : List (String × Json)) :
    List (String × Json) :=
  if carriesOverrides fields then responsiveProps table breakpoint fields else fields

theorem depthOfFields_fieldsAt (table : BreakpointTable) (breakpoint : String)
    (fields : List (String × Json)) :
    Json.depthOfFields (fieldsAt table breakpoint fields) ≤ Json.depthOfFields fields := by
  unfold fieldsAt
  split
  · exact depthOfFields_responsiveProps table breakpoint fields
  · exact Nat.le_refl _

/-- A schema at a breakpoint: overrides are laid over every section, also over
sections that come out of overrides. -/
def applyBreakpoint (table : BreakpointTable) (breakpoint : String) : Json → Json
  | .array items =>
    .array (items.attach.map fun ⟨item, _⟩ => applyBreakpoint table breakpoint item)
  | .object fields =>
    .object ((fieldsAt table breakpoint fields).attach.map fun field =>
      (field.1.1, applyBreakpoint table breakpoint field.1.2))
  | other => other
termination_by schema => schema.depth
decreasing_by
  · rename_i h
    have := Json.depth_le_of_mem_items h
    simp only [Json.depth]
    omega
  · have hmem := Json.depth_le_of_mem_fields field.2
    have hfields := depthOfFields_fieldsAt table breakpoint fields
    simp only [Json.depth]
    omega

@[simp] theorem applyBreakpoint_array (table : BreakpointTable) (breakpoint : String)
    (items : List Json) :
    applyBreakpoint table breakpoint (.array items) =
      .array (items.map (applyBreakpoint table breakpoint)) := by
  rw [applyBreakpoint]
  simp

@[simp] theorem applyBreakpoint_object (table : BreakpointTable) (breakpoint : String)
    (fields : List (String × Json)) :
    applyBreakpoint table breakpoint (.object fields) =
      .object ((fieldsAt table breakpoint fields).map fun field =>
        (field.1, applyBreakpoint table breakpoint field.2)) := by
  rw [applyBreakpoint]
  exact congrArg Json.object (@List.attach_map_val _ _ (fieldsAt table breakpoint fields)
    fun field => (field.1, applyBreakpoint table breakpoint field.2))

end ViewSchema
