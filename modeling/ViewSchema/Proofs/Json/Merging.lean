import ViewSchema.Proofs.Json.Regular

/-!
# Looking up in merged fields

Merging lays fields over fields one after the other, and each of them is combined with what
stands under its name so far.  Where no name comes twice, a name has in the end what its own
two values are combined to, whatever the other fields are.

Main results:

- Theorem `Fields.lookup_foldl_set`: a name has what its own two values are combined to.
- Theorem `Fields.names_foldl_set`: the names that are new go to the end.
- Theorem `lookup_deepMergeFields`: what a deep merge has under a name.
- Theorem `lookup_applyMutation`: what a section under a mutation has under a name.
-/

namespace ViewSchema

/-- Fields that are laid over others one after the other are combined name by name. -/
theorem Fields.lookup_foldl_set {α : Type} (combine : String → Option α → α → α)
    (base : List (String × α)) {overlay : List (String × α)} (h : Fields.Distinct overlay)
    (name : String) :
    (overlay.foldl (fun acc field =>
      Fields.set acc field.1 (combine field.1 (acc.lookup field.1) field.2)) base).lookup name =
      ((overlay.lookup name).map (combine name (base.lookup name))).or (base.lookup name) := by
  induction overlay generalizing base with
  | nil => rfl
  | cons first rest ih =>
    rw [List.foldl_cons, ih _ h.tail, Fields.lookup_set, Fields.lookup_cons]
    by_cases hname : name = first.1
    · subst hname
      have hfresh : rest.lookup first.1 = none :=
        Fields.lookup_eq_none_iff.2 (List.nodup_cons.1 h).1
      simp [hfresh]
    · simp [hname]

/-- Fields that are laid over others keep the order of names there; new names go to the end. -/
theorem Fields.names_foldl_set {α : Type} (combine : String → Option α → α → α)
    (base : List (String × α)) {overlay : List (String × α)} (h : Fields.Distinct overlay) :
    Fields.names (overlay.foldl (fun acc field =>
      Fields.set acc field.1 (combine field.1 (acc.lookup field.1) field.2)) base) =
      Fields.names base ++ (Fields.names overlay).filter (· ∉ Fields.names base) := by
  induction overlay generalizing base with
  | nil => simp
  | cons first rest ih =>
    have hfresh : first.1 ∉ Fields.names rest := (List.nodup_cons.1 h).1
    rw [List.foldl_cons, ih _ h.tail, Fields.names_set, Fields.names_cons]
    by_cases hname : first.1 ∈ Fields.names base
    · rw [if_pos hname, List.filter_cons_of_neg (by simpa using hname)]
    · have hrest : (Fields.names rest).filter (· ∉ Fields.names base ++ [first.1]) =
          (Fields.names rest).filter (· ∉ Fields.names base) := by
        apply List.filter_congr
        intro name hmem
        have hne : name ≠ first.1 := fun heq => hfresh (heq ▸ hmem)
        simp [hne]
      rw [if_neg hname, hrest, List.filter_cons_of_pos (by simpa using hname), List.append_assoc]
      rfl

/-- Setting a name to the value that it has changes nothing. -/
theorem Fields.set_eq_self {α : Type} {fields : List (String × α)} {name : String} {value : α}
    (h : fields.lookup name = some value) : Fields.set fields name value = fields := by
  induction fields with
  | nil => simp at h
  | cons first rest ih =>
    rw [Fields.lookup_cons] at h
    by_cases hname : first.1 = name
    · rw [if_pos hname.symm] at h
      rw [Fields.set, if_pos hname, ← Option.some.inj h]
    · rw [if_neg (Ne.symm hname)] at h
      rw [Fields.set, if_neg hname, ih h]

/-- Laying fields over others changes nothing where every one of them is combined to the value
that its name has. -/
theorem Fields.foldl_set_eq_self {α : Type} (combine : String → Option α → α → α)
    {base overlay : List (String × α)} (h : ∀ field ∈ overlay, ∃ value,
      base.lookup field.1 = some value ∧ combine field.1 (some value) field.2 = value) :
    overlay.foldl (fun acc field =>
      Fields.set acc field.1 (combine field.1 (acc.lookup field.1) field.2)) base = base := by
  induction overlay with
  | nil => rfl
  | cons first rest ih =>
    rw [List.forall_mem_cons] at h
    obtain ⟨⟨value, hlookup, hcombine⟩, hrest⟩ := h
    rw [List.foldl_cons, hlookup, hcombine, Fields.set_eq_self hlookup]
    exact ih hrest

/-- Fields that are set change nothing just where each of them has its value already. -/
theorem Fields.setAll_eq_self_iff {α : Type} {fields others : List (String × α)}
    (h : Fields.Distinct others) : Fields.setAll fields others = fields ↔
      ∀ field ∈ others, fields.lookup field.1 = some field.2 := by
  constructor
  · intro hsame field hfield
    have hlookup : others.lookup field.1 = some field.2 := (Fields.lookup_eq_some_iff h).2 hfield
    rw [← hsame, Fields.lookup_setAll h, hlookup, Option.some_or]
  · intro hall
    exact Fields.foldl_set_eq_self (fun _ _ value => value) fun field hfield =>
      ⟨field.2, hall field hfield, rfl⟩

/-! ## Deep merges -/

/-- A value laid over the one that stands there already, if any. -/
def deepMergedOver (existing : Option Json) (value : Json) : Json :=
  match existing with
  | some base => deepMerge base value
  | none => value

theorem deepMergeFields_eq_foldl (base overlay : List (String × Json)) :
    deepMergeFields base overlay = overlay.foldl (fun acc field =>
      Fields.set acc field.1 (deepMergedOver (acc.lookup field.1) field.2)) base := by
  induction overlay generalizing base with
  | nil => rw [deepMergeFields, List.foldl_nil]
  | cons first rest ih =>
    rw [deepMergeFields, ih]
    rfl

/-- A deep merge has under a name the value laid over it, merged with what stood there. -/
theorem lookup_deepMergeFields {base overlay : List (String × Json)}
    (h : Fields.Distinct overlay) (name : String) :
    (deepMergeFields base overlay).lookup name =
      ((overlay.lookup name).map (deepMergedOver (base.lookup name))).or (base.lookup name) := by
  rw [deepMergeFields_eq_foldl]
  exact Fields.lookup_foldl_set (fun _ => deepMergedOver) base h name

/-! ## Mutations -/

/-- The value of an override, laid over the one that stands there already, if any. -/
def overriddenBy (name : String) (existing : Option Json) (value : Json) : Json :=
  match existing with
  | some base =>
    if deepMergedFields.contains name && value.isObject && base.isObject then
      deepMerge base value
    else value
  | none => value

theorem applyOverride_eq (base : List (String × Json)) (name : String) (value : Json) :
    applyOverride base name value =
      Fields.set base name (overriddenBy name (base.lookup name) value) := by
  unfold applyOverride overriddenBy
  cases base.lookup name with
  | none => rfl
  | some existing => exact (apply_ite (Fields.set base name) _ _ _).symm

/-- The value of an override stands as it is, unless it is merged with what it is laid over. -/
theorem overriddenBy_cases (name : String) (existing : Option Json) (value : Json) :
    overriddenBy name existing value = value ∨
      ∃ base, existing = some base ∧ overriddenBy name existing value = deepMerge base value := by
  cases existing with
  | none => exact .inl rfl
  | some base =>
    unfold overriddenBy
    dsimp only
    split
    · exact .inr ⟨base, rfl, rfl⟩
    · exact .inl rfl

/-- A section under a mutation has under a name the value of the override, merged with its own
only where overrides are merged deeply, or else its own value. -/
theorem lookup_applyMutation {base overrides : List (String × Json)}
    (h : Fields.Distinct overrides) (name : String) :
    (applyMutation base overrides).lookup name =
      ((overrides.lookup name).map (overriddenBy name (base.lookup name))).or
        (base.lookup name) := by
  unfold applyMutation
  simp only [applyOverride_eq]
  exact Fields.lookup_foldl_set overriddenBy base h name

end ViewSchema
