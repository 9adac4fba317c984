import Mathlib.Data.List.Induction
import ViewSchema.Json.Value

/-!
# Laws of ordered fields

Fields with distinct names behave like a finite map: looking a name up is the same
as finding its pair among them.  Setting and removing fields keeps names distinct, and
removal, which moves the last field into the gap, is invisible to every other name.

Main results:

- Theorem `lookup_eq_some_iff`: under distinct names, look-up is membership.
- Theorem `names_ofList`, `mem_ofList_iff`: of repeated names the first places and the last values
  are kept.
- Theorem `swapRemove_perm`: removal permutes the fields that remain.
- Theorem `lookup_swapRemove`: removal hides one name and no other.
- Theorem `lookup_erase_eq_some_iff`: erasing a pair hides its name only while it has that
  value.
-/

namespace ViewSchema

namespace Fields

variable {α : Type} {fields : List (String × α)} {name other : String} {value : α}

/-! ## Look-up and membership -/

/-- A field that is found stands among the fields. -/
theorem mem_of_lookup (h : fields.lookup name = some value) : (name, value) ∈ fields := by
  induction fields with
  | nil => simp at h
  | cons field rest ih =>
    rw [lookup_cons] at h
    split at h
    · rename_i hname
      cases h
      rw [hname]
      exact List.mem_cons_self
    · exact List.mem_cons_of_mem _ (ih h)

/-- A name without a field is not found. -/
theorem lookup_eq_none_iff : fields.lookup name = none ↔ name ∉ names fields := by
  induction fields with
  | nil => simp
  | cons field rest ih =>
    rw [lookup_cons, names_cons, List.mem_cons]
    by_cases h : name = field.1
    · simp [h]
    · simp [h, ih]

theorem mem_names_iff : name ∈ names fields ↔ ∃ value, fields.lookup name = some value := by
  rw [← Option.isSome_iff_exists, Option.isSome_iff_ne_none, ne_eq, lookup_eq_none_iff, not_not]

/-- Distinct names in a longer list are distinct in its tail. -/
theorem Distinct.tail {field : String × α} (h : Distinct (field :: fields)) : Distinct fields :=
  (List.nodup_cons.1 h).2

/-- Under distinct names, looking a name up is finding its pair. -/
theorem lookup_eq_some_iff (h : Distinct fields) :
    fields.lookup name = some value ↔ (name, value) ∈ fields := by
  constructor
  · exact mem_of_lookup
  · intro hmem
    induction fields with
    | nil => simp at hmem
    | cons field rest ih =>
      rw [lookup_cons]
      rcases List.mem_cons.1 hmem with heq | hrest
      · subst heq
        simp
      · have hfresh : field.1 ∉ names rest := (List.nodup_cons.1 h).1
        have hne : name ≠ field.1 := by
          intro heq
          exact hfresh (heq ▸ List.mem_map_of_mem hrest)
        rw [if_neg hne]
        exact ih h.tail hrest

/-- Under distinct names, one field at most has a name. -/
theorem filter_name_of_distinct (h : Distinct fields) (name : String) :
    fields.filter (fun field => field.1 == name) =
      (fields.lookup name).toList.map fun value => (name, value) := by
  induction fields with
  | nil => rfl
  | cons field rest ih =>
    rw [lookup_cons]
    by_cases hname : name = field.1
    · have hfresh : name ∉ names rest := hname ▸ (List.nodup_cons.1 h).1
      rw [if_pos hname, List.filter_cons_of_pos (by simp [hname]), ih h.tail,
        lookup_eq_none_iff.2 hfresh, hname]
      rfl
    · rw [if_neg hname, List.filter_cons_of_neg (by simpa using Ne.symm hname), ih h.tail]

/-! ## Setting -/

/-- What stands among the fields after one is set was there before, or is the new
value. -/
theorem mem_set {field : String × α} (h : field ∈ set fields name value) :
    field ∈ fields ∨ field.2 = value := by
  induction fields with
  | nil =>
    rw [set_nil, List.mem_singleton] at h
    exact Or.inr (congrArg Prod.snd h)
  | cons first rest ih =>
    by_cases hname : first.1 = name
    · simp only [set, hname, if_true] at h
      rcases List.mem_cons.1 h with heq | hrest
      · exact Or.inr (congrArg Prod.snd heq)
      · exact Or.inl (List.mem_cons_of_mem _ hrest)
    · simp only [set, hname, if_false] at h
      rcases List.mem_cons.1 h with heq | hrest
      · exact Or.inl (heq ▸ List.mem_cons_self)
      · rcases ih hrest with hold | hnew
        · exact Or.inl (List.mem_cons_of_mem _ hold)
        · exact Or.inr hnew

/-- What stands among the fields after several are set was there before, or is one of the
new values. -/
theorem mem_setAll {field : String × α} {others : List (String × α)}
    (h : field ∈ setAll fields others) : field ∈ fields ∨ ∃ other ∈ others, field.2 = other.2 := by
  induction others generalizing fields with
  | nil => exact Or.inl h
  | cons first rest ih =>
    have hstep : setAll fields (first :: rest) = setAll (set fields first.1 first.2) rest := rfl
    rw [hstep] at h
    rcases ih h with hset | ⟨other, hother, heq⟩
    · rcases mem_set hset with hold | hnew
      · exact Or.inl hold
      · exact Or.inr ⟨first, List.mem_cons_self, hnew⟩
    · exact Or.inr ⟨other, List.mem_cons_of_mem _ hother, heq⟩

/-- Setting several fields keeps names distinct. -/
theorem Distinct.setAll (h : Distinct fields) (others : List (String × α)) :
    Distinct (Fields.setAll fields others) := by
  induction others generalizing fields with
  | nil => exact h
  | cons first rest ih => exact ih (h.set first.1 first.2)

/-- Fields from a list of pairs have distinct names. -/
theorem distinct_ofList (pairs : List (String × α)) : Distinct (ofList pairs) := by
  have hnone : Distinct ([] : List (String × α)) := List.nodup_nil
  exact hnone.setAll pairs

/-- After several fields are set, a name has its value among them, if it has one there. -/
theorem lookup_setAll {others : List (String × α)} (h : Distinct others) (name : String) :
    (setAll fields others).lookup name = (others.lookup name).or (fields.lookup name) := by
  induction others generalizing fields with
  | nil => rfl
  | cons first rest ih =>
    have hstep : setAll fields (first :: rest) = setAll (set fields first.1 first.2) rest := rfl
    rw [hstep, ih h.tail, lookup_set, lookup_cons]
    by_cases hname : name = first.1
    · have hfresh : rest.lookup name = none := by
        rw [lookup_eq_none_iff, hname]
        exact (List.nodup_cons.1 h).1
      simp [hname ▸ hfresh, hname]
    · simp [hname]

/-- A name has the last value that is set under it. -/
theorem lookup_setAll_reverse (fields others : List (String × α)) (name : String) :
    (setAll fields others).lookup name = (others.reverse.lookup name).or (fields.lookup name) := by
  induction others generalizing fields with
  | nil => rfl
  | cons first rest ih =>
    have hstep : setAll fields (first :: rest) = setAll (set fields first.1 first.2) rest := rfl
    rw [hstep, ih, lookup_set, List.reverse_cons, List.lookup_append, Option.or_assoc,
      lookup_cons]
    split <;> rfl

/-- Pairs that all keep to a rule make fields by that rule, where the rule gives each name one
value and each of its names is listed. -/
theorem lookup_ofList_iff {pairs : List (String × α)} {rule : String → α → Prop}
    (hrule : ∀ pair ∈ pairs, rule pair.1 pair.2)
    (hlisted : ∀ name value, rule name value → name ∈ names pairs)
    (hunique : ∀ name value value', rule name value → rule name value' → value = value')
    {value : α} : (ofList pairs).lookup name = some value ↔ rule name value := by
  have hlast : (ofList pairs).lookup name = pairs.reverse.lookup name := by
    rw [ofList, lookup_setAll_reverse, List.lookup_nil, Option.or_none]
  have hkept : ∀ found, pairs.reverse.lookup name = some found → rule name found :=
    fun found hfound => hrule _ (List.mem_reverse.1 (mem_of_lookup hfound))
  rw [hlast]
  constructor
  · intro hfound
    exact hkept value hfound
  · intro hvalue
    cases hfound : pairs.reverse.lookup name with
    | none =>
      have habsent := lookup_eq_none_iff.1 hfound
      rw [names, List.map_reverse, List.mem_reverse] at habsent
      exact absurd (hlisted name value hvalue) habsent
    | some found => rw [hunique name found value (hkept found hfound) hvalue]

/-- A new field goes to the end. -/
theorem set_of_not_mem (h : name ∉ names fields) :
    set fields name value = fields ++ [(name, value)] := by
  induction fields with
  | nil => rfl
  | cons field rest ih =>
    rw [names_cons, List.mem_cons, not_or] at h
    rw [set, if_neg (Ne.symm h.1), ih h.2, List.cons_append]

/-- Fields that are all new go to the end in their order. -/
theorem setAll_of_distinct {others : List (String × α)} (h : Distinct (fields ++ others)) :
    setAll fields others = fields ++ others := by
  induction others generalizing fields with
  | nil => simp [setAll]
  | cons field rest ih =>
    have hfresh : field.1 ∉ names fields := by
      intro hmem
      unfold Distinct names at h
      rw [List.map_append, List.nodup_append] at h
      exact h.2.2 _ hmem _ (by simp) rfl
    have hstep : setAll fields (field :: rest) = setAll (set fields field.1 field.2) rest := rfl
    rw [hstep, set_of_not_mem hfresh, ih (by simpa using h), List.append_assoc]
    rfl

/-- Pairs with distinct names are fields as they stand. -/
theorem ofList_of_distinct (h : Distinct fields) : ofList fields = fields :=
  setAll_of_distinct h

/-! ## Repeated names -/

theorem ofList_concat (pairs : List (String × α)) (pair : String × α) :
    ofList (pairs ++ [pair]) = set (ofList pairs) pair.1 pair.2 := by
  rw [ofList, setAll, List.foldl_append]
  rfl

/-- Names keep the place of their first occurrence. -/
theorem names_ofList (pairs : List (String × α)) :
    names (ofList pairs) = (names pairs).eraseDups := by
  induction pairs using List.reverseRecOn with
  | nil => rfl
  | append_singleton pairs pair ih =>
    have hnames : names (pairs ++ [pair]) = names pairs ++ [pair.1] := by simp [names]
    rw [ofList_concat, names_set, ih, hnames, List.eraseDups_append]
    by_cases hmem : pair.1 ∈ names pairs
    · simp [hmem, List.removeAll]
    · simp [hmem, List.removeAll, List.eraseDups_cons]

/-- Names keep the value of their last occurrence. -/
theorem mem_ofList_iff {pairs : List (String × α)} {pair : String × α} :
    pair ∈ ofList pairs ↔
      ∃ before after, pairs = before ++ pair :: after ∧ ∀ other ∈ after, other.1 ≠ pair.1 := by
  obtain ⟨name, value⟩ := pair
  rw [← lookup_eq_some_iff (distinct_ofList pairs), ofList, lookup_setAll_reverse, List.lookup_nil,
    Option.or_none, List.lookup_eq_some_iff]
  constructor
  · rintro ⟨after, before, hpairs, hafter⟩
    refine ⟨before.reverse, after.reverse, ?_, fun other hother heq => ?_⟩
    · rw [← List.reverse_reverse pairs, hpairs]
      simp
    · simpa [heq] using hafter other (List.mem_reverse.1 hother)
  · rintro ⟨before, after, rfl, hafter⟩
    refine ⟨after.reverse, before.reverse, by simp, fun other hother => ?_⟩
    simpa using Ne.symm (hafter other (List.mem_reverse.1 hother))

/-! ## Setting what is missing -/

theorem lookup_setIfMissing (fields : List (String × α)) (name other : String) (value : α) :
    (setIfMissing fields name value).lookup other =
      (fields.lookup other).or (if other = name then some value else none) := by
  unfold setIfMissing
  split
  · rename_i hsome
    by_cases hname : other = name
    · subst hname
      obtain ⟨found, hfound⟩ := Option.isSome_iff_exists.1 hsome
      simp [hfound]
    · simp [hname]
  · rw [List.lookup_append, lookup_cons]
    rfl

theorem Distinct.setIfMissing (h : Distinct fields) (name : String)
    (value : α) : Distinct (Fields.setIfMissing fields name value) := by
  unfold Fields.setIfMissing
  split
  · exact h
  · rename_i hnone
    have hfresh : name ∉ names fields :=
      lookup_eq_none_iff.1 (Option.not_isSome_iff_eq_none.1 hnone)
    rw [← set_of_not_mem hfresh]
    exact h.set name value

/-- Fields that are set only where they are missing come after those that are there. -/
theorem lookup_foldl_setIfMissing (fields others : List (String × α)) (name : String) :
    (others.foldl (fun acc field => setIfMissing acc field.1 field.2) fields).lookup name =
      (fields.lookup name).or (others.lookup name) := by
  induction others generalizing fields with
  | nil => rw [List.foldl_nil, List.lookup_nil, Option.or_none]
  | cons first rest ih =>
    rw [List.foldl_cons, ih, lookup_setIfMissing, Option.or_assoc, lookup_cons]
    split <;> rfl

theorem Distinct.foldl_setIfMissing (h : Distinct fields) (others : List (String × α)) :
    Distinct (others.foldl (fun acc field => Fields.setIfMissing acc field.1 field.2) fields) := by
  induction others generalizing fields with
  | nil => exact h
  | cons first rest ih => exact ih (h.setIfMissing first.1 first.2)

/-! ## Reading values -/

/-- Where values are read and those that cannot be are left out, a name has what is read from its
value. -/
theorem lookup_filterMap {β : Type} (h : Distinct fields) (read : α → Option β) (name : String) :
    (fields.filterMap fun field => (read field.2).map fun value => (field.1, value)).lookup name =
      (fields.lookup name).bind read := by
  induction fields with
  | nil => rfl
  | cons field rest ih =>
    have hrest := ih h.tail
    rw [lookup_cons]
    cases hread : read field.2 with
    | none =>
      rw [List.filterMap_cons_none (by rw [hread]; rfl), hrest]
      by_cases hname : name = field.1
      · have hfresh : rest.lookup name = none :=
          lookup_eq_none_iff.2 (hname ▸ (List.nodup_cons.1 h).1)
        rw [if_pos hname, hfresh, Option.bind_some, hread]
        rfl
      · rw [if_neg hname]
    | some value =>
      rw [List.filterMap_cons_some (by rw [hread]; rfl), lookup_cons, hrest]
      by_cases hname : name = field.1
      · rw [if_pos hname, if_pos hname, Option.bind_some, hread]
      · rw [if_neg hname, if_neg hname]

/-- Reading the values of fields keeps names distinct. -/
theorem Distinct.filterMap {β : Type} (h : Distinct fields) (read : α → Option β) :
    Distinct (fields.filterMap fun field => (read field.2).map fun value => (field.1, value)) := by
  unfold Distinct names List.Nodup at h ⊢
  rw [List.pairwise_map] at h ⊢
  rw [List.pairwise_filterMap]
  refine h.imp ?_
  intro earlier later hne read₁ hread₁ read₂ hread₂
  obtain ⟨_, -, rfl⟩ := Option.map_eq_some_iff.1 hread₁
  obtain ⟨_, -, rfl⟩ := Option.map_eq_some_iff.1 hread₂
  exact hne

/-! ## Removing -/

/-- Fields keep away from a name that none of them has. -/
theorem ne_of_not_mem {field : String × α} (h : name ∉ names fields) (hfield : field ∈ fields) :
    field.1 ≠ name :=
  fun heq => h (heq ▸ List.mem_map_of_mem hfield)

/-- A name without a field has no place. -/
theorem findIdx?_of_not_mem (h : name ∉ names fields) :
    fields.findIdx? (·.1 == name) = none := by
  rw [List.findIdx?_eq_none_iff]
  intro field hfield
  simpa using ne_of_not_mem h hfield

/-- Filtering out a name without a field keeps everything. -/
theorem filter_of_not_mem (h : name ∉ names fields) : fields.filter (·.1 != name) = fields := by
  rw [List.filter_eq_self]
  intro field hfield
  simpa using ne_of_not_mem h hfield

/-- Removing a name that has no field changes nothing. -/
theorem swapRemove_of_not_mem (h : name ∉ names fields) : swapRemove fields name = fields := by
  simp [swapRemove, findIdx?_of_not_mem h]

/-- The place of a field behind others of different names. -/
theorem findIdx?_append_cons (before after : List (String × α)) (h : name ∉ names before) :
    (before ++ (name, value) :: after).findIdx? (·.1 == name) = some before.length := by
  simp [List.findIdx?_append, findIdx?_of_not_mem h, List.findIdx?_cons]

/-- The last field moves into the place of the removed one. -/
theorem swapRemove_append (before after : List (String × α)) (last : String × α)
    (h : name ∉ names before) :
    swapRemove (before ++ (name, value) :: (after ++ [last])) name = before ++ last :: after := by
  have hlast : (before ++ (name, value) :: (after ++ [last])).getLast? = some last := by
    simp [List.getLast?_append, List.getLast?_cons]
  have hdrop : (before ++ last :: (after ++ [last])).dropLast = before ++ last :: after := by
    rw [← List.cons_append, ← List.append_assoc, List.dropLast_concat]
  simp only [swapRemove, findIdx?_append_cons before _ h, hlast]
  simpa using hdrop

/-- A removed last field leaves the others as they are. -/
theorem swapRemove_concat (before : List (String × α)) (h : name ∉ names before) :
    swapRemove (before ++ [(name, value)]) name = before := by
  have hlast : (before ++ [(name, value)]).getLast? = some (name, value) := by simp
  simp only [swapRemove, findIdx?_append_cons before _ h, hlast]
  simp

/-- Removing a name permutes the fields of the other names. -/
theorem swapRemove_perm (h : Distinct fields) (name : String) :
    (swapRemove fields name).Perm (fields.filter (·.1 != name)) := by
  by_cases hmem : name ∈ names fields
  · obtain ⟨field, hfield, rfl⟩ := List.mem_map.1 hmem
    obtain ⟨before, after, rfl⟩ := List.append_of_mem hfield
    have hnodup : (names before ++ field.1 :: names after).Nodup := by
      simpa [Distinct, names] using h
    have hsplit := List.nodup_append.1 hnodup
    have hbefore : field.1 ∉ names before := fun hin =>
      hsplit.2.2 _ hin _ List.mem_cons_self rfl
    have hafter : field.1 ∉ names after := (List.nodup_cons.1 hsplit.2.1).1
    have hfilter : (before ++ field :: after).filter (·.1 != field.1) = before ++ after := by
      simp [List.filter_append, filter_of_not_mem hbefore, filter_of_not_mem hafter]
    rw [hfilter]
    rcases List.eq_nil_or_concat after with rfl | ⟨init, last, rfl⟩
    · rw [List.append_nil, swapRemove_concat before hbefore]
    · rw [List.concat_eq_append, swapRemove_append before init last hbefore]
      exact List.Perm.append_left before (List.perm_append_singleton last init).symm
  · rw [swapRemove_of_not_mem hmem, filter_of_not_mem hmem]

/-- Removing a field keeps names distinct. -/
theorem Distinct.swapRemove (h : Distinct fields) (name : String) :
    Distinct (Fields.swapRemove fields name) := by
  have hperm := (swapRemove_perm h name).map Prod.fst
  have hsub : ((fields.filter (·.1 != name)).map Prod.fst).Sublist (names fields) :=
    List.Sublist.map _ List.filter_sublist
  exact hperm.nodup_iff.2 (hsub.nodup h)

/-- Removal hides its name and leaves every other one as it was. -/
theorem lookup_swapRemove (h : Distinct fields) (name other : String) :
    (swapRemove fields name).lookup other =
      if other = name then none else fields.lookup other := by
  have hmem : ∀ value, (other, value) ∈ swapRemove fields name ↔
      (other, value) ∈ fields ∧ other ≠ name := by
    intro value
    rw [(swapRemove_perm h name).mem_iff, List.mem_filter]
    simp
  split
  · rename_i heq
    rw [lookup_eq_none_iff]
    intro hin
    obtain ⟨field, hfield, hname⟩ := List.mem_map.1 hin
    have hpair : (other, field.2) ∈ swapRemove fields name := by
      rw [← hname]
      exact hfield
    exact ((hmem field.2).1 hpair).2 heq
  · rename_i hne
    apply Option.ext
    intro value
    rw [lookup_eq_some_iff (h.swapRemove name), lookup_eq_some_iff h, hmem value]
    exact and_iff_left hne

/-- Removing several names hides them and no others. -/
theorem lookup_foldl_swapRemove (h : Distinct fields) (names : List String) (other : String) :
    (names.foldl swapRemove fields).lookup other =
      if other ∈ names then none else fields.lookup other := by
  induction names generalizing fields with
  | nil => simp
  | cons name rest ih =>
    rw [List.foldl_cons, ih (h.swapRemove name), lookup_swapRemove h name other]
    by_cases hname : other = name
    · simp [hname]
    · simp [hname]

/-- Removing several names that have no field changes nothing. -/
theorem foldl_swapRemove_of_not_mem {gone : List String} (h : ∀ name ∈ gone, name ∉ names fields) :
    gone.foldl swapRemove fields = fields := by
  induction gone with
  | nil => rfl
  | cons name rest ih =>
    rw [List.foldl_cons, swapRemove_of_not_mem (h name List.mem_cons_self)]
    exact ih fun other hother => h other (List.mem_cons_of_mem _ hother)

theorem Distinct.foldl_swapRemove (h : Distinct fields) (names : List String) :
    Distinct (names.foldl Fields.swapRemove fields) := by
  induction names generalizing fields with
  | nil => exact h
  | cons name rest ih => exact ih (h.swapRemove name)

/-! ## Erasing a pair -/

/-- Erasing a pair keeps names distinct. -/
theorem Distinct.erase [BEq α] (h : Distinct fields) (pair : String × α) :
    Distinct (fields.erase pair) :=
  h.sublist (List.erase_sublist.map Prod.fst)

/-- Erasing a pair hides its name only while the name has the value of the pair. -/
theorem lookup_erase_eq_some_iff [BEq α] [LawfulBEq α] (h : Distinct fields) {found : α} :
    (fields.erase (name, value)).lookup other = some found ↔
      fields.lookup other = some found ∧ (other, found) ≠ (name, value) := by
  have hnodup : fields.Nodup :=
    List.Pairwise.of_map Prod.fst (fun _ _ hne heq => hne (congrArg Prod.fst heq)) h
  rw [lookup_eq_some_iff (h.erase _), lookup_eq_some_iff h, hnodup.mem_erase_iff]
  exact and_comm

end Fields

end ViewSchema
