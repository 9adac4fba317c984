import ViewSchema.Json.Depth
import ViewSchema.Proofs.Json.Merging

/-!
# Paths in merged values

A path of names leads from object to object.  What a deep merge has at a path is what the overlay
has there, merged with what the base has there; where the overlay has nothing, and did not stop
at a value that is no object before, the base shows through.  What was laid over a value once has
no effect when it is laid over it again.

Main results:

- Definition `Json.at?`: the value at a path.
- Theorems `at?_deepMerge_of_some` and `at?_deepMerge_of_none`: what a deep merge has at a path.
- Theorems `deepMerge_again` and `applyMutation_again`: laying the same over a value twice.
- Definitions `MergeOf` and `MutationOf`, and theorem `merge_laws`: the two ways of merging.
-/

namespace ViewSchema

/-! ## Paths -/

namespace Json

/-- The value that a path of names leads to. -/
def at? (value : Json) : List String → Option Json
  | [] => some value
  | name :: rest => (value.member? name).bind fun member => member.at? rest

/-- The empty path leads to the value itself. -/
@[simp] theorem at?_nil (value : Json) : value.at? [] = some value := rfl

/-- A path leads through the member that it begins with. -/
theorem at?_cons (value : Json) (name : String) (rest : List String) :
    value.at? (name :: rest) = (value.member? name).bind fun member => member.at? rest := rfl

/-- The members of an object are its fields. -/
@[simp] theorem member?_object (fields : List (String × Json)) (name : String) :
    (object fields).member? name = fields.lookup name := rfl

/-- An object has fields. -/
theorem exists_fields {value : Json} (h : value.isObject = true) :
    ∃ fields, value = object fields := by
  cases value with
  | object fields => exact ⟨fields, rfl⟩
  | _ => cases h

/-- Only objects have members. -/
theorem member?_of_not_object {value : Json} (h : value.isObject = false) (name : String) :
    value.member? name = none := by
  cases value with
  | object fields => cases h
  | _ => rfl

/-- What stands at a path of a regular value is regular. -/
theorem Regular.at? {value inner : Json} {path : List String} (h : value.Regular)
    (hinner : value.at? path = some inner) : inner.Regular := by
  induction path generalizing value with
  | nil =>
    cases hinner
    exact h
  | cons name rest ih =>
    rw [at?_cons, Option.bind_eq_some_iff] at hinner
    obtain ⟨member, hmember, hrest⟩ := hinner
    cases value with
    | object fields => exact ih (h.lookup hmember) hrest
    | _ => cases hmember

end Json

/-! ## Deep merges -/

section DeepMerge

variable {base overlay value : Json} {path : List String}

/-- Whatever is no object replaces what it is laid over. -/
theorem deepMerge_of_overlay (base : Json) (h : overlay.isObject = false) :
    deepMerge base overlay = overlay := by
  cases overlay with
  | object fields => cases h
  | _ => rfl

/-- An object replaces what is none. -/
theorem deepMerge_of_base (h : base.isObject = false) (overlay : Json) :
    deepMerge base overlay = overlay := by
  cases overlay with
  | object fields =>
    cases base with
    | object baseFields => cases h
    | _ => rfl
  | _ => rfl

/-- A member of a merged object is the member laid over it, merged with its own one. -/
theorem member?_deepMerge (base : Json) {fields : List (String × Json)}
    (h : Fields.Distinct fields) (name : String) :
    (deepMerge base (.object fields)).member? name =
      ((fields.lookup name).map (deepMergedOver (base.member? name))).or (base.member? name) := by
  cases hbase : base.isObject with
  | true =>
    obtain ⟨baseFields, rfl⟩ := Json.exists_fields hbase
    rw [deepMerge]
    exact lookup_deepMergeFields h name
  | false =>
    rw [deepMerge_of_base hbase, Json.member?_of_not_object hbase, Json.member?_object]
    cases fields.lookup name <;> rfl

/-- Where the overlay has a value, it is merged with what the base has there. -/
theorem at?_deepMerge_of_some (h : overlay.Regular) (hvalue : overlay.at? path = some value) :
    (deepMerge base overlay).at? path = some (deepMergedOver (base.at? path) value) := by
  induction path generalizing base overlay with
  | nil =>
    cases hvalue
    rfl
  | cons name rest ih =>
    rw [Json.at?_cons, Option.bind_eq_some_iff] at hvalue
    obtain ⟨member, hmember, hrest⟩ := hvalue
    cases overlay with
    | object fields =>
      rw [Json.member?_object] at hmember
      rw [Json.at?_cons, Json.at?_cons, member?_deepMerge base h.distinct, hmember,
        Option.map_some, Option.some_or, Option.bind_some]
      cases base.member? name with
      | none => exact hrest
      | some below => exact ih (h.lookup hmember) hrest
    | _ => cases hmember

/-- Where the overlay has nothing, the base shows through, unless the overlay has a value that is
no object on the way. -/
theorem at?_deepMerge_of_none (h : overlay.Regular) (hnone : overlay.at? path = none)
    (hobject : ∀ front value, front <+: path → front ≠ path → overlay.at? front = some value →
      value.isObject = true) :
    (deepMerge base overlay).at? path = base.at? path := by
  induction path generalizing base overlay with
  | nil => cases hnone
  | cons name rest ih =>
    obtain ⟨fields, rfl⟩ :=
      Json.exists_fields (hobject [] overlay List.nil_prefix (by simp) rfl)
    rw [Json.at?_cons, Json.member?_object] at hnone
    rw [Json.at?_cons, Json.at?_cons, member?_deepMerge base h.distinct]
    cases hmember : fields.lookup name with
    | none => rfl
    | some member =>
      rw [hmember, Option.bind_some] at hnone
      rw [Option.map_some, Option.some_or, Option.bind_some]
      cases base.member? name with
      | none => exact hnone
      | some below =>
        refine ih (h.lookup hmember) hnone fun front value hfront hne hvalue => ?_
        apply hobject (name :: front) value
        · exact List.cons_prefix_cons.2 ⟨rfl, hfront⟩
        · simpa using hne
        · rw [Json.at?_cons, Json.member?_object, hmember]
          exact hvalue

/-- A merged object has the names of the base, and behind them those that are new. -/
theorem names_deepMergeFields (base : List (String × Json)) {overlay : List (String × Json)}
    (h : Fields.Distinct overlay) :
    Fields.names (deepMergeFields base overlay) =
      Fields.names base ++ (Fields.names overlay).filter (· ∉ Fields.names base) := by
  rw [deepMergeFields_eq_foldl]
  exact Fields.names_foldl_set (fun _ => deepMergedOver) base h

/-! ## Merging again -/

/-- What was merged is merged by name: each overlay field is found again, merged with some value
or none. -/
theorem exists_deepMergedOver_fields (existing : Option Json) {fields : List (String × Json)}
    (h : Fields.Distinct fields) :
    ∃ merged, deepMergedOver existing (.object fields) = .object merged ∧
      ∀ field ∈ fields, ∃ below,
        merged.lookup field.1 = some (deepMergedOver below field.2) := by
  have hfound : ∀ field ∈ fields, fields.lookup field.1 = some field.2 :=
    fun field hfield => (Fields.lookup_eq_some_iff h).2 hfield
  have hnew : ∀ field ∈ fields, ∃ below,
      fields.lookup field.1 = some (deepMergedOver below field.2) :=
    fun field hfield => ⟨none, hfound field hfield⟩
  cases existing with
  | none => exact ⟨fields, rfl, hnew⟩
  | some base =>
    cases hbase : base.isObject with
    | true =>
      obtain ⟨baseFields, rfl⟩ := Json.exists_fields hbase
      refine ⟨deepMergeFields baseFields fields, by rw [deepMergedOver, deepMerge], ?_⟩
      intro field hfield
      refine ⟨baseFields.lookup field.1, ?_⟩
      rw [lookup_deepMergeFields h, hfound field hfield]
      rfl
    | false => exact ⟨fields, deepMerge_of_base hbase _, hnew⟩

/-- A value that was laid over another one, or over none, adds nothing when it is laid over the
result. -/
theorem deepMerge_deepMergedOver (h : overlay.Regular) (existing : Option Json) :
    deepMerge (deepMergedOver existing overlay) overlay = deepMergedOver existing overlay := by
  induction hdepth : overlay.depth using Nat.strongRecOn generalizing overlay existing with
  | _ depth ih =>
    subst hdepth
    cases hobject : overlay.isObject with
    | true =>
      obtain ⟨fields, rfl⟩ := Json.exists_fields hobject
      obtain ⟨merged, hmerged, hlookup⟩ := exists_deepMergedOver_fields existing h.distinct
      rw [hmerged, deepMerge, deepMergeFields_eq_foldl]
      refine congrArg Json.object
        (Fields.foldl_set_eq_self (fun _ => deepMergedOver) fun field hfield => ?_)
      obtain ⟨below, hbelow⟩ := hlookup field hfield
      have hregular : field.2.Regular := (Json.regular_object_iff.1 h).2 field hfield
      exact ⟨_, hbelow, ih _ (Json.depth_lt_of_mem_object hfield) hregular below rfl⟩
    | false =>
      rw [deepMerge_of_overlay _ hobject]
      cases existing with
      | none => rfl
      | some base => exact (deepMerge_of_overlay base hobject).symm

/-- Merging the same again changes nothing. -/
theorem deepMerge_again (h : overlay.Regular) (base : Json) :
    deepMerge (deepMerge base overlay) overlay = deepMerge base overlay :=
  deepMerge_deepMergedOver h (some base)

end DeepMerge

/-! ## Mutations -/

section Mutation

variable {name : String} {value base : Json} {node overrides : List (String × Json)}

/-- Styles and component props are merged, other fields replaced. -/
theorem mem_deepMergedFields : name ∈ deepMergedFields ↔ name = "style" ∨ name = "_props" := by
  simp [deepMergedFields]

/-- An override of a name that is not merged deeply stands as it is. -/
theorem overriddenBy_of_not_mem (h : name ∉ deepMergedFields) (existing : Option Json)
    (value : Json) : overriddenBy name existing value = value := by
  cases existing with
  | none => rfl
  | some base => simp [overriddenBy, h]

/-- An override of a name that is merged deeply is laid over the value there. -/
theorem overriddenBy_of_mem (h : name ∈ deepMergedFields) (existing : Option Json)
    (value : Json) : overriddenBy name existing value = deepMergedOver existing value := by
  cases existing with
  | none => rfl
  | some base =>
    unfold overriddenBy deepMergedOver
    dsimp only
    split
    · rfl
    · rename_i hapart
      rw [List.contains_iff_mem.2 h, Bool.true_and, Bool.and_eq_true, not_and_or,
        Bool.not_eq_true, Bool.not_eq_true] at hapart
      rcases hapart with hvalue | hbase
      · exact (deepMerge_of_overlay base hvalue).symm
      · exact (deepMerge_of_base hbase value).symm

/-- An override replaces what it is laid over, unless both are objects. -/
theorem overriddenBy_of_apart {existing : Option Json} (h : value.isObject = false ∨
    ∀ base, existing = some base → base.isObject = false) :
    overriddenBy name existing value = value := by
  by_cases hname : name ∈ deepMergedFields
  · rw [overriddenBy_of_mem hname]
    cases existing with
    | none => rfl
    | some base =>
      rcases h with hvalue | hbase
      · exact deepMerge_of_overlay base hvalue
      · exact deepMerge_of_base (hbase base rfl) value
  · exact overriddenBy_of_not_mem hname existing value

/-- An override adds nothing when it is laid over its own result. -/
theorem overriddenBy_again (h : value.Regular) (existing : Option Json) :
    overriddenBy name (some (overriddenBy name existing value)) value =
      overriddenBy name existing value := by
  by_cases hname : name ∈ deepMergedFields
  · rw [overriddenBy_of_mem hname, overriddenBy_of_mem hname]
    exact deepMerge_deepMergedOver h existing
  · rw [overriddenBy_of_not_mem hname, overriddenBy_of_not_mem hname]

/-- Overrides are laid over the fields one by one. -/
theorem applyMutation_eq_foldl (node overrides : List (String × Json)) :
    applyMutation node overrides = overrides.foldl (fun acc field =>
      Fields.set acc field.1 (overriddenBy field.1 (acc.lookup field.1) field.2)) node := by
  simp only [applyMutation, applyOverride_eq]

/-- A section under overrides keeps the order of its names; new ones go to the end. -/
theorem names_applyMutation (node : List (String × Json)) (h : Fields.Distinct overrides) :
    Fields.names (applyMutation node overrides) =
      Fields.names node ++ (Fields.names overrides).filter (· ∉ Fields.names node) := by
  rw [applyMutation_eq_foldl]
  exact Fields.names_foldl_set overriddenBy node h

/-- An override has under its name what it makes of the value there. -/
theorem lookup_applyMutation_of_some (h : Fields.Distinct overrides)
    (hvalue : overrides.lookup name = some value) :
    (applyMutation node overrides).lookup name =
      some (overriddenBy name (node.lookup name) value) := by
  rw [lookup_applyMutation h, hvalue]
  rfl

/-- The same overrides change nothing the second time. -/
theorem applyMutation_again (h : (Json.object overrides).Regular) (node : List (String × Json)) :
    applyMutation (applyMutation node overrides) overrides = applyMutation node overrides := by
  rw [applyMutation_eq_foldl (applyMutation node overrides)]
  refine Fields.foldl_set_eq_self overriddenBy fun field hfield => ?_
  obtain ⟨hdistinct, hregular⟩ := Json.regular_object_iff.1 h
  have hlookup := (Fields.lookup_eq_some_iff hdistinct).2 hfield
  exact ⟨_, lookup_applyMutation_of_some hdistinct hlookup,
    overriddenBy_again (hregular field hfield) _⟩

end Mutation

/-! ## The two ways of merging -/

/-- What a value is made of when another one was laid over it. -/
structure MergeOf (base overlay merged : Json) : Prop where
  /-- Anything but an object replaces what was there. -/
  replaces : ∀ path value, overlay.at? path = some value → value.isObject = false →
    merged.at? path = some value
  /-- So does an object where there was none. -/
  brings : ∀ path value, overlay.at? path = some value → value.isObject = true →
    (∀ below, base.at? path = some below → below.isObject = false) →
    merged.at? path = some value
  /-- Elsewhere the base remains. -/
  keeps : ∀ path, overlay.at? path = none →
    (∀ front value, front <+: path → front ≠ path → overlay.at? front = some value →
      value.isObject = true) →
    merged.at? path = base.at? path
  /-- The names of two objects that meet are those of the base, and then the new ones. -/
  orders : ∀ path baseFields fields, base.at? path = some (.object baseFields) →
    overlay.at? path = some (.object fields) →
    ∃ mergedFields, merged.at? path = some (.object mergedFields) ∧
      Fields.names mergedFields =
        Fields.names baseFields ++ (Fields.names fields).filter (· ∉ Fields.names baseFields)

/-- What a section is made of under overrides. -/
structure MutationOf (node overrides mutated : List (String × Json)) : Prop where
  keeps : ∀ name, name ∉ Fields.names overrides → mutated.lookup name = node.lookup name
  replaces : ∀ name value, overrides.lookup name = some value →
    name ≠ "style" → name ≠ "_props" → mutated.lookup name = some value
  /-- Style and props are merged deeply where both sides are objects, -/
  merges : ∀ name value base, overrides.lookup name = some value → node.lookup name = some base →
    name = "style" ∨ name = "_props" → value.isObject = true → base.isObject = true →
    mutated.lookup name = some (deepMerge base value)
  /-- and replaced like everything else where they are not. -/
  replacesApart : ∀ name value, overrides.lookup name = some value →
    (value.isObject = false ∨ ∀ base, node.lookup name = some base → base.isObject = false) →
    mutated.lookup name = some value
  orders : Fields.names mutated =
    Fields.names node ++ (Fields.names overrides).filter (· ∉ Fields.names node)

/-- Merging regular values is what the laws say of merging. -/
theorem mergeOf_deepMerge {overlay : Json} (h : overlay.Regular) (base : Json) :
    MergeOf base overlay (deepMerge base overlay) where
  replaces path value hvalue hplain := by
    rw [at?_deepMerge_of_some h hvalue]
    cases base.at? path with
    | none => rfl
    | some below => exact congrArg some (deepMerge_of_overlay below hplain)
  brings path value hvalue _ hbelow := by
    rw [at?_deepMerge_of_some h hvalue]
    cases hbase : base.at? path with
    | none => rfl
    | some below => exact congrArg some (deepMerge_of_base (hbelow below hbase) value)
  keeps path hnone hobject := at?_deepMerge_of_none h hnone hobject
  orders path baseFields fields hbase hfields := by
    refine ⟨deepMergeFields baseFields fields, ?_, names_deepMergeFields baseFields ?_⟩
    · rw [at?_deepMerge_of_some h hfields, hbase, deepMergedOver, deepMerge]
    · exact (h.at? hfields).distinct

/-- Laying overrides over fields is what the laws say of a mutation. -/
theorem mutationOf_applyMutation {overrides : List (String × Json)}
    (h : Fields.Distinct overrides) (node : List (String × Json)) :
    MutationOf node overrides (applyMutation node overrides) where
  keeps name hname := by
    rw [lookup_applyMutation h, Fields.lookup_eq_none_iff.2 hname]
    rfl
  replaces name value hvalue hstyle hprops := by
    have hname : name ∉ deepMergedFields := by simp [mem_deepMergedFields, hstyle, hprops]
    rw [lookup_applyMutation_of_some h hvalue, overriddenBy_of_not_mem hname]
  merges name value base hvalue hbase hname _ _ := by
    rw [lookup_applyMutation_of_some h hvalue, hbase,
      overriddenBy_of_mem (mem_deepMergedFields.2 hname)]
    rfl
  replacesApart name value hvalue hapart := by
    rw [lookup_applyMutation_of_some h hvalue, overriddenBy_of_apart hapart]
  orders := names_applyMutation node h

/-- A deep merge goes by the paths of the overlay and a mutation by its names, both keep the
order of what was there, and neither does anything more when it is repeated. -/
theorem merge_laws {overlay : Json} {overrides : List (String × Json)} (hoverlay : overlay.Regular)
    (hoverrides : (Json.object overrides).Regular) :
    (∀ base, MergeOf base overlay (deepMerge base overlay) ∧
      deepMerge (deepMerge base overlay) overlay = deepMerge base overlay) ∧
    ∀ node, MutationOf node overrides (applyMutation node overrides) ∧
      applyMutation (applyMutation node overrides) overrides = applyMutation node overrides :=
  ⟨fun base => ⟨mergeOf_deepMerge hoverlay base, deepMerge_again hoverlay base⟩,
    fun node => ⟨mutationOf_applyMutation hoverrides.distinct node,
      applyMutation_again hoverrides node⟩⟩

/-- A card, and overrides of its style, its content and a label that it does not have. -/
def pricedCard : List (String × Json) :=
  [("name", .string "card"), ("style", .object [("color", .string "blue"), ("margin", .int 0)]),
    ("content", .object [("name", .string "price")])]

def cardOverrides : List (String × Json) :=
  [("label", .string "Sale"), ("style", .object [("color", .string "red")]),
    ("content", .object [("tag", .string "b")])]

/-- A card with a style, a content and overrides of both. -/
theorem merge_laws_card :
    (Json.object cardOverrides).Regular ∧
      (deepMerge (.object pricedCard) (.object cardOverrides)).at? ["style", "color"] =
        some (.string "red") ∧
      (deepMerge (.object pricedCard) (.object cardOverrides)).at? ["style", "margin"] =
        some (.int 0) ∧
      (applyMutation pricedCard cardOverrides).lookup "content" =
        some (.object [("tag", .string "b")]) ∧
      Fields.names (applyMutation pricedCard cardOverrides) =
        ["name", "style", "content", "label"] ∧
      applyMutation (applyMutation pricedCard cardOverrides) cardOverrides =
        applyMutation pricedCard cardOverrides := by
  have hregular : (Json.object cardOverrides).Regular := by
    simp [cardOverrides, Json.Regular, Json.RegularFields, Fields.Distinct]
  obtain ⟨hmerge, hmutation⟩ := merge_laws hregular hregular
  obtain ⟨hmerged, -⟩ := hmerge (.object pricedCard)
  obtain ⟨hmutated, hagain⟩ := hmutation pricedCard
  refine ⟨hregular, hmerged.replaces _ _ rfl rfl, hmerged.keeps _ rfl ?_,
    hmutated.replaces _ _ rfl (by decide) (by decide), hmutated.orders, hagain⟩
  -- What stands on the way to the margin is the overrides and the style among them.
  intro front value hfront hne hvalue
  simp only [List.prefix_cons_iff, List.prefix_nil] at hfront
  rcases hfront with rfl | ⟨_, rfl, rfl | ⟨_, rfl, rfl⟩⟩
  · cases hvalue
    rfl
  · cases hvalue
    rfl
  · exact absurd rfl hne

end ViewSchema
