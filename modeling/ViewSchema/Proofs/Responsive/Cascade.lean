import Mathlib.Data.List.Basic
import ViewSchema.Proofs.Breakpoint.Lookup
import ViewSchema.Proofs.Json.Merging
import ViewSchema.Responsive

/-!
# The cascade of overrides

At a breakpoint a section is first stripped of all names of the table, which moves its other fields
around, and then put under one override after the other.  Read name by name this is simple: a name
has its own value and those that the overrides up to the breakpoint have under it, one laid over
the other.  The last one stands, but for the two names whose values are merged.

Main results:

- Definition `overrideValues`: the values under a name that come to bear at a breakpoint.
- Theorem `lookup_responsiveProps_eq`: a name has these, laid over its own value.
- Theorems `laidOver_eq_getLast?` and `laidOver_eq_foldl`: what that means for a name.
- Theorem `lookup_responsiveProps`: the cascade, and what has no effect on it.
-/

namespace ViewSchema

variable {fields merged : List (String × Json)} {table : BreakpointTable}
  {breakpoint name key : String} {existing : Option Json} {values : List Json}

/-! ## Overrides of a section -/

/-- The overrides that a section has under a name. Values that are no objects are none. -/
def overridesUnder (fields : List (String × Json)) (name : String) :
    Option (List (String × Json)) :=
  (fields.lookup name).bind Json.object?

/-- The values that the overrides up to a breakpoint have under a key, in the order of the table. -/
def overrideValues (table : BreakpointTable) (breakpoint : String)
    (fields : List (String × Json)) (key : String) : List Json :=
  (table.upTo breakpoint).filterMap fun name => (overridesUnder fields name).bind (·.lookup key)

theorem overridesUnder_eq_some_iff {overrides : List (String × Json)} :
    overridesUnder fields name = some overrides ↔
      fields.lookup name = some (.object overrides) := by
  unfold overridesUnder
  cases fields.lookup name with
  | none => simp
  | some value => cases value <;> simp [Json.object?]

theorem applyBreakpointOverride_of_none (h : overridesUnder fields name = none)
    (merged : List (String × Json)) : applyBreakpointOverride fields merged name = merged := by
  unfold applyBreakpointOverride
  split
  · rename_i overrides hlookup
    rw [overridesUnder_eq_some_iff.2 hlookup] at h
    cases h
  · rfl

theorem applyBreakpointOverride_of_some {overrides : List (String × Json)}
    (h : overridesUnder fields name = some overrides) (merged : List (String × Json)) :
    applyBreakpointOverride fields merged name = applyMutation merged overrides := by
  rw [applyBreakpointOverride, overridesUnder_eq_some_iff.1 h]

/-! ## Values laid one over the other -/

/-- Values under a key, each laid over what stands there before it, if anything does. -/
def laidOver (key : String) (existing : Option Json) (values : List Json) : Option Json :=
  values.foldl (fun found value => some (overriddenBy key found value)) existing

/-- Of two objects the members are merged at every depth; anything else is replaced. -/
def mergedOver : Option Json → Json → Json
  | some (.object base), .object overlay => .object (deepMergeFields base overlay)
  | _, value => value

/-- Where overrides replace values, the last one stands. -/
theorem laidOver_eq_getLast? (h : key ∉ deepMergedFields) (existing : Option Json)
    (values : List Json) : laidOver key existing values = values.getLast?.or existing := by
  have hreplaced : ∀ found value, overriddenBy key found value = value := by
    intro found value
    cases found with
    | none => rfl
    | some base => simp [overriddenBy, h]
  unfold laidOver
  induction values generalizing existing with
  | nil => rfl
  | cons value rest ih =>
    rw [List.foldl_cons, hreplaced, ih, List.getLast?_cons]
    cases rest.getLast? <;> rfl

theorem overriddenBy_eq_mergedOver (h : key ∈ deepMergedFields) (existing : Option Json)
    (value : Json) : overriddenBy key existing value = mergedOver existing value := by
  cases existing with
  | none => rfl
  | some base =>
    cases base <;> cases value <;> simp [overriddenBy, mergedOver, deepMerge, Json.isObject, h]

/-- Where overrides are merged deeply, all of them leave their mark. -/
theorem laidOver_eq_foldl (h : key ∈ deepMergedFields) (existing : Option Json)
    (values : List Json) : laidOver key existing values =
      values.foldl (fun found value => some (mergedOver found value)) existing := by
  unfold laidOver
  simp only [overriddenBy_eq_mergedOver h]

/-! ## A key at a breakpoint -/

/-- One override lays its value under a key over what the key has so far. -/
theorem lookup_applyBreakpointOverride (h : (Json.object fields).Regular)
    (merged : List (String × Json)) (name key : String) :
    (applyBreakpointOverride fields merged name).lookup key =
      laidOver key (merged.lookup key)
        ((overridesUnder fields name).bind (·.lookup key)).toList := by
  cases hunder : overridesUnder fields name with
  | none => rw [applyBreakpointOverride_of_none hunder]; rfl
  | some overrides =>
    have hdistinct : Fields.Distinct overrides :=
      (h.lookup (overridesUnder_eq_some_iff.1 hunder)).distinct
    rw [applyBreakpointOverride_of_some hunder, lookup_applyMutation hdistinct, Option.bind_some]
    cases overrides.lookup key <;> rfl

/-- At a breakpoint a key has the values of the overrides, laid over its own one. A name of the
table has none of its own. -/
theorem lookup_responsiveProps_eq (h : (Json.object fields).Regular) (table : BreakpointTable)
    (breakpoint key : String) :
    (responsiveProps table breakpoint fields).lookup key =
      laidOver key (if key ∈ table.names then none else fields.lookup key)
        (overrideValues table breakpoint fields key) := by
  have hlay : ∀ (names : List String) (merged : List (String × Json)),
      (names.foldl (applyBreakpointOverride fields) merged).lookup key =
        laidOver key (merged.lookup key)
          (names.filterMap fun name => (overridesUnder fields name).bind (·.lookup key)) := by
    intro names
    induction names with
    | nil => exact fun _ => rfl
    | cons name rest ih =>
      intro merged
      rw [List.foldl_cons, ih, lookup_applyBreakpointOverride h, List.filterMap_cons]
      cases (overridesUnder fields name).bind (·.lookup key) <;> rfl
  rw [responsiveProps, hlay, dropBreakpoints, Fields.lookup_foldl_swapRemove h.distinct]
  rfl

/-! ## The cascade -/

/-- At a breakpoint every key that is no name of the table has the value of the last override up to
the breakpoint that has one, or else its own; `style` and `_props` have their own value with those
of all these overrides merged over it in order. Overrides of later names, values that are no objects
and, if it is unknown, the breakpoint itself have no effect. -/
theorem lookup_responsiveProps (h : (Json.object fields).Regular) (table : BreakpointTable)
    (breakpoint : String) :
    (∀ key, key ∉ table.names → key ≠ "style" → key ≠ "_props" →
      (responsiveProps table breakpoint fields).lookup key =
        (overrideValues table breakpoint fields key).getLast?.or (fields.lookup key)) ∧
    (∀ key, key ∉ table.names → key = "style" ∨ key = "_props" →
      (responsiveProps table breakpoint fields).lookup key =
        (overrideValues table breakpoint fields key).foldl
          (fun found value => some (mergedOver found value)) (fields.lookup key)) ∧
    (∀ others, (Json.object others).Regular →
      (∀ key, key ∉ table.names → others.lookup key = fields.lookup key) →
      (∀ name ∈ table.upTo breakpoint, overridesUnder others name = overridesUnder fields name) →
      ∀ key, (responsiveProps table breakpoint others).lookup key =
        (responsiveProps table breakpoint fields).lookup key) ∧
    (table.contains breakpoint = false → ∀ key, key ∉ table.names →
      (responsiveProps table breakpoint fields).lookup key = fields.lookup key) := by
  refine ⟨?_, ?_, ?_, ?_⟩
  · intro key hname hstyle hprops
    have hreplaced : key ∉ deepMergedFields := by simp [deepMergedFields, hstyle, hprops]
    rw [lookup_responsiveProps_eq h, if_neg hname, laidOver_eq_getLast? hreplaced]
  · intro key hname hkey
    have hmerged : key ∈ deepMergedFields := by simpa [deepMergedFields] using hkey
    rw [lookup_responsiveProps_eq h, if_neg hname, laidOver_eq_foldl hmerged]
  · intro others hothers hkeys hunder key
    have hvalues : overrideValues table breakpoint others key =
        overrideValues table breakpoint fields key :=
      List.filterMap_congr fun name hname => by rw [hunder name hname]
    rw [lookup_responsiveProps_eq h, lookup_responsiveProps_eq hothers, hvalues]
    by_cases hname : key ∈ table.names
    · rw [if_pos hname, if_pos hname]
    · rw [if_neg hname, if_neg hname, hkeys key hname]
  · intro hunknown key hname
    rw [lookup_responsiveProps_eq h, if_neg hname, overrideValues,
      BreakpointTable.upTo_of_not_contains hunknown]
    rfl

/-- A section with overrides that change types, bring in new names or come to nothing. -/
def cardGrid : List (String × Json) :=
  [("xs", .object [("style", .object [("box", .object [("edge", .int 2)])]),
      ("columns", .string "auto")]),
    ("name", .string "cards"), ("sm", .string "wide"),
    ("style", .object [("gap", .int 4), ("box", .object [("pad", .int 1)])]),
    ("md", .object [("columns", .int 2), ("style", .object [("gap", .int 8)]),
      ("_props", .object [("role", .string "list")])]),
    ("xl", .object [("columns", .int 4), ("name", .string "wall")])]

theorem regular_cardGrid : (Json.object cardGrid).Regular := by
  simp [cardGrid, Json.Regular, Json.RegularFields, Fields.Distinct, Json.int]

/-- Between two breakpoints with overrides, those of the smaller one stand. -/
theorem lookup_responsiveProps_cardGrid :
    (Json.object cardGrid).Regular ∧
      (responsiveProps .standard "lg" cardGrid).lookup "name" = some (.string "cards") ∧
      (responsiveProps .standard "lg" cardGrid).lookup "columns" = some (.int 2) ∧
      (responsiveProps .standard "lg" cardGrid).lookup "style" =
        some (.object [("gap", .int 8), ("box", .object [("pad", .int 1), ("edge", .int 2)])]) ∧
      (responsiveProps .standard "lg" cardGrid).lookup "_props" =
        some (.object [("role", .string "list")]) := by
  obtain ⟨hlast, hmerged, -, -⟩ := lookup_responsiveProps regular_cardGrid .standard "lg"
  exact ⟨regular_cardGrid, hlast "name" (by decide) (by decide) (by decide),
    hlast "columns" (by decide) (by decide) (by decide),
    hmerged "style" (by decide) (.inl rfl), hmerged "_props" (by decide) (.inr rfl)⟩

end ViewSchema
