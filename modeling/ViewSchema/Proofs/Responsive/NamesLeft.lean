import ViewSchema.Proofs.Responsive.Cascade
import ViewSchema.Proofs.Responsive.Overrides

/-!
# Names of breakpoints that are left

The names of the table are removed from a section once, before its overrides are laid over it.  An
override that has such a name among its own keys brings it back, and nothing else does.  A section
with such a name is never left alone when it is put at a breakpoint again: what stands under its
names afterwards comes from further inside, so it is nested less deeply.

Main results:

- Definition `BringsBack`: an override that comes to bear has a name of the table as a key.
- Theorem `mem_names_responsiveProps_iff`: the names that are left are those brought back.
- Theorem `responsiveProps_eq_self_iff`: exactly the sections without names are left alone.
- Theorem `responsiveProps_again`: what is left, and when another breakpoint changes nothing.
- Theorem `name_left_nestedGrid`: a name that is left.
-/

namespace ViewSchema

variable {fields : List (String × Json)} {table : BreakpointTable} {breakpoint name key : String}
  {existing : Option Json} {values : List Json} {value : Json}

/-! ## Names that are brought back -/

/-- An override up to the breakpoint has the name among its keys. -/
def BringsBack (table : BreakpointTable) (breakpoint : String) (fields : List (String × Json))
    (name : String) : Prop :=
  ∃ other ∈ table.upTo breakpoint, ∃ overrides,
    fields.lookup other = some (.object overrides) ∧ name ∈ Fields.names overrides

theorem bringsBack_iff :
    BringsBack table breakpoint fields name ↔
      ∃ value, value ∈ overrideValues table breakpoint fields name := by
  simp only [BringsBack, overrideValues, List.mem_filterMap, Option.bind_eq_some_iff,
    overridesUnder_eq_some_iff, Fields.mem_names_iff]
  constructor
  · rintro ⟨other, hother, overrides, hunder, value, hvalue⟩
    exact ⟨value, other, hother, overrides, hunder, hvalue⟩
  · rintro ⟨value, other, hother, overrides, hunder, hvalue⟩
    exact ⟨other, hother, overrides, hunder, value, hvalue⟩

/-- Values laid over nothing come to something exactly if there are any. -/
theorem laidOver_none_eq_none_iff : laidOver key none values = none ↔ values = [] := by
  have hsome : ∀ (values : List Json) (base : Json), laidOver key (some base) values ≠ none := by
    intro values
    induction values with
    | nil => exact fun _ => Option.some_ne_none _
    | cons value rest ih => exact fun _ => ih _
  cases values with
  | nil => exact ⟨fun _ => rfl, fun _ => rfl⟩
  | cons value rest => exact ⟨fun h => absurd h (hsome rest _), fun h => nomatch h⟩

/-- Of the names of the table, those are left that an override brings back. -/
theorem mem_names_responsiveProps_iff (h : (Json.object fields).Regular)
    (hname : name ∈ table.names) :
    name ∈ Fields.names (responsiveProps table breakpoint fields) ↔
      BringsBack table breakpoint fields name := by
  rw [← not_iff_not, ← Fields.lookup_eq_none_iff, lookup_responsiveProps_eq h, if_pos hname,
    laidOver_none_eq_none_iff, bringsBack_iff, not_exists, List.eq_nil_iff_forall_not_mem]

/-! ## Sections that are left alone -/

/-- A section without names of the table is left alone at every breakpoint. -/
theorem responsiveProps_eq_self (h : ∀ name ∈ table.names, name ∉ Fields.names fields)
    (breakpoint : String) : responsiveProps table breakpoint fields = fields := by
  have hlay : ∀ names : List String, (∀ name ∈ names, name ∈ table.names) →
      names.foldl (applyBreakpointOverride fields) fields = fields := by
    intro names
    induction names with
    | nil => exact fun _ => rfl
    | cons name rest ih =>
      intro hnames
      have hnone : overridesUnder fields name = none := by
        rw [overridesUnder, Fields.lookup_eq_none_iff.2 (h name (hnames name List.mem_cons_self))]
        rfl
      rw [List.foldl_cons, applyBreakpointOverride_of_none hnone]
      exact ih fun other hother => hnames other (List.mem_cons_of_mem _ hother)
  rw [responsiveProps, dropBreakpoints, Fields.foldl_swapRemove_of_not_mem h]
  exact hlay _ fun _ => BreakpointTable.mem_names_of_mem_upTo

/-- What values come to is nested no deeper than one of them, or what they are laid over. -/
theorem depth_of_laidOver (h : laidOver key existing values = some value) :
    (∃ base, existing = some base ∧ value.depth ≤ base.depth) ∨
      ∃ source ∈ values, value.depth ≤ source.depth := by
  induction values generalizing existing with
  | nil => exact .inl ⟨value, h, Nat.le_refl _⟩
  | cons first rest ih =>
    rcases ih h with ⟨_, hlaid, hle⟩ | ⟨source, hsource, hle⟩
    · cases hlaid
      rcases overriddenBy_cases key existing first with hfirst | ⟨base, hbase, hmerged⟩
      · exact .inr ⟨first, List.mem_cons_self, hfirst ▸ hle⟩
      · have hdepth := depth_deepMerge base first
        rw [hmerged] at hle
        have hcases : value.depth ≤ base.depth ∨ value.depth ≤ first.depth := by omega
        rcases hcases with hleft | hright
        · exact .inl ⟨base, hbase, hleft⟩
        · exact .inr ⟨first, List.mem_cons_self, hright⟩
    · exact .inr ⟨source, List.mem_cons_of_mem _ hsource, hle⟩

/-- In a section that is left alone, the value under a name of the table stands inside of another
such value. -/
theorem exists_deeper (h : (Json.object fields).Regular)
    (hself : responsiveProps table breakpoint fields = fields) (hname : name ∈ table.names)
    (hvalue : fields.lookup name = some value) :
    ∃ other ∈ table.names, ∃ outer, fields.lookup other = some outer ∧
      value.depth < outer.depth := by
  have hlaid := lookup_responsiveProps_eq h table breakpoint name
  rw [hself, if_pos hname, hvalue] at hlaid
  rcases depth_of_laidOver hlaid.symm with ⟨_, hnone, -⟩ | ⟨source, hsource, hle⟩
  · cases hnone
  · obtain ⟨other, hother, hinner⟩ := List.mem_filterMap.1 hsource
    obtain ⟨overrides, hunder, hfound⟩ := Option.bind_eq_some_iff.1 hinner
    refine ⟨other, BreakpointTable.mem_names_of_mem_upTo hother, .object overrides,
      overridesUnder_eq_some_iff.1 hunder, ?_⟩
    have hdepth := Json.depth_le_of_lookup hfound
    rw [Json.depth]
    omega

/-- At whichever breakpoint, exactly the sections without names of the table are left alone. -/
theorem responsiveProps_eq_self_iff (h : (Json.object fields).Regular) :
    responsiveProps table breakpoint fields = fields ↔
      ∀ name ∈ table.names, name ∉ Fields.names fields := by
  refine ⟨?_, fun hfree => responsiveProps_eq_self hfree breakpoint⟩
  intro hself name hname hmem
  obtain ⟨value, hvalue⟩ := Fields.mem_names_iff.1 hmem
  -- Values that stand inside of each other without end would have to be nested ever more deeply.
  have hunbounded : ∀ bound, ∃ other ∈ table.names, ∃ outer,
      fields.lookup other = some outer ∧ bound ≤ outer.depth := by
    intro bound
    induction bound with
    | zero => exact ⟨name, hname, value, hvalue, Nat.zero_le _⟩
    | succ bound ih =>
      obtain ⟨other, hother, inner, hinner, hle⟩ := ih
      obtain ⟨next, hnext, outer, houter, hlt⟩ := exists_deeper h hself hother hinner
      exact ⟨next, hnext, outer, houter, Nat.lt_of_le_of_lt hle hlt⟩
  obtain ⟨_, -, outer, houter, hle⟩ := hunbounded (Json.depthOfFields fields + 1)
  have hdepth := Json.depth_le_of_lookup houter
  omega

/-! ## At a breakpoint, and at another one -/

/-- At a breakpoint exactly those names of the table are left that an override up to it has among
its keys. Nothing is changed at another breakpoint, whichever it is, exactly if there are none. -/
theorem responsiveProps_again (h : (Json.object fields).Regular) (table : BreakpointTable)
    (breakpoint : String) :
    (∀ name ∈ table.names, name ∈ Fields.names (responsiveProps table breakpoint fields) ↔
      BringsBack table breakpoint fields name) ∧
    ∀ later, responsiveProps table later (responsiveProps table breakpoint fields) =
        responsiveProps table breakpoint fields ↔
      ∀ name ∈ table.names, ¬ BringsBack table breakpoint fields name := by
  refine ⟨fun name hname => mem_names_responsiveProps_iff h hname, ?_⟩
  intro later
  rw [responsiveProps_eq_self_iff (h.responsiveProps table breakpoint)]
  exact forall₂_congr fun name hname => not_congr (mem_names_responsiveProps_iff h hname)

/-- No name is left in a section whose overrides have none, also if it is put at a larger
breakpoint afterwards. -/
theorem responsiveProps_again_cardGrid :
    (Json.object cardGrid).Regular ∧
      (∀ name ∈ BreakpointTable.standard.names,
        name ∉ Fields.names (responsiveProps .standard "md" cardGrid)) ∧
      responsiveProps .standard "xl" (responsiveProps .standard "md" cardGrid) =
        responsiveProps .standard "md" cardGrid := by
  have hfree : ∀ name ∈ BreakpointTable.standard.names,
      name ∉ Fields.names (responsiveProps .standard "md" cardGrid) := by decide +kernel
  obtain ⟨hleft, hagain⟩ := responsiveProps_again regular_cardGrid .standard "md"
  exact ⟨regular_cardGrid, hfree,
    (hagain "xl").2 fun name hname => (not_congr (hleft name hname)).1 (hfree name hname)⟩

/-- A section with an override inside of another one. -/
def nestedGrid : List (String × Json) :=
  [("name", .string "g"), ("md", .object [("xl", .object [("columns", .int 4)])])]

/-- The inner override is left at the breakpoint of the outer one, and comes to bear when the
section is put at its own breakpoint afterwards. -/
theorem name_left_nestedGrid :
    (Json.object nestedGrid).Regular ∧ "xl" ∈ BreakpointTable.standard.names ∧
      "xl" ∈ Fields.names (responsiveProps .standard "md" nestedGrid) ∧
      responsiveProps .standard "xl" (responsiveProps .standard "md" nestedGrid) ≠
        responsiveProps .standard "md" nestedGrid := by
  have hregular : (Json.object nestedGrid).Regular := by
    simp [nestedGrid, Json.Regular, Json.RegularFields, Fields.Distinct, Json.int]
  refine ⟨hregular, by decide, by decide, ?_⟩
  intro hsame
  have hnames := congrArg Fields.names hsame
  exact absurd hnames (by decide)

end ViewSchema
