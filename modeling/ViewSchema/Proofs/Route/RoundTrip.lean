import ViewSchema.Proofs.Config.Setting
import ViewSchema.Proofs.Json.Decoding
import ViewSchema.Route.Config

/-!
# Reading back route configurations

Whatever a route configuration is read from, it is written in a form that is read as the same
configuration: fields without a value are left out and have none when they are missing, and the
fields of its own kind keep their order and their values.  So configurations that are read can be
told apart by their written form, and by its text where numbers can.

Main results:

- Theorem `RouteConfig.readable_ofSetting?`: what is known of a configuration that is read.
- Theorem `RouteConfig.ofSetting?_toJson`: its written form is read as the same configuration.
- Theorem `RouteConfig.listToJson_text_inj`: the text of its written form says which it is.
-/

namespace ViewSchema

namespace RouteConfig

open Setting (ofJson ofFields field? optional?)

variable {P : Number → Prop}

/-! ## Configurations that are read -/

/-- Values inside a configuration: no object repeats a name, and numbers are of some kind. -/
def Plain (P : Number → Prop) (v : Json) : Prop := v.Regular ∧ v.AllNumbers P

/-- A value without repeated names is plain if its numbers are. -/
theorem plain_distinct {v : Json} (h : v.AllNumbers P) : Plain P v.distinct :=
  ⟨Json.regular_distinct v, h.distinct⟩

mutual

/-- Configurations as they are read: a view is not null, and fields of their own kind have distinct
names without a meaning. -/
def Readable (P : Number → Prop) : RouteConfig → Prop
  | ⟨_, _, _, _, view, routes, extra⟩ =>
    (∀ v, view = some v → v ≠ .null ∧ Plain P v) ∧ AllReadable P routes ∧
      Fields.Distinct extra ∧ ∀ field ∈ extra, field.1 ∉ knownFields ∧ Plain P field.2

def AllReadable (P : Number → Prop) : List RouteConfig → Prop
  | [] => True
  | c :: cs => Readable P c ∧ AllReadable P cs

end

/-- The routes below a configuration, from the values of every field for them. -/
def single? : List (List RouteConfig) → Option (List RouteConfig)
  | [] => some []
  | [routes] => some routes
  | _ => none

/-- What is read of the fields of a configuration. -/
theorem assemble?_eq_some_iff {fields : List (String × Setting)} {nested : List (List RouteConfig)}
    {c : RouteConfig} :
    assemble? fields nested = some c ↔
      field? fields "path" Setting.string? none = some c.path ∧
      field? fields "name" (optional? Setting.string?) (some none) = some c.name ∧
      field? fields "component" (optional? Setting.string?) (some none) = some c.component ∧
      field? fields "active" Setting.bool? (some true) = some c.active ∧
      field? fields "view" (optional? fun view => some view.toJson) (some none) = some c.view ∧
      single? nested = some c.routes ∧ extraOf fields = c.extra := by
  have hbind : assemble? fields nested =
      (field? fields "path" Setting.string? none).bind fun path =>
      (field? fields "name" (optional? Setting.string?) (some none)).bind fun name =>
      (field? fields "component" (optional? Setting.string?) (some none)).bind fun component =>
      (field? fields "active" Setting.bool? (some true)).bind fun active =>
      (field? fields "view" (optional? fun view => some view.toJson) (some none)).bind fun view =>
      (single? nested).bind fun routes =>
      some ⟨path, name, component, active, view, routes, extraOf fields⟩ := by
    match nested with
    | [] => rfl
    | [_] => rfl
    | _ :: _ :: _ => rfl
  obtain ⟨path, name, component, active, view, routes, extra⟩ := c
  simp only [hbind, Option.bind_eq_some_iff, Option.some.injEq, RouteConfig.mk.injEq]
  constructor
  · rintro ⟨_, hpath, _, hname, _, hcomponent, _, hactive, _, hview, _, hroutes, rfl, rfl, rfl,
      rfl, rfl, rfl, rfl⟩
    exact ⟨hpath, hname, hcomponent, hactive, hview, hroutes, rfl⟩
  · rintro ⟨hpath, hname, hcomponent, hactive, hview, hroutes, rfl⟩
    exact ⟨_, hpath, _, hname, _, hcomponent, _, hactive, _, hview, _, hroutes, rfl, rfl, rfl, rfl,
      rfl, rfl, rfl⟩

/-- Only null counts as null. -/
theorem isNull_iff {v : Json} : v.isNull = true ↔ v = .null := by
  cases v <;> simp [Json.isNull]

/-- Leaving out repeated names makes nothing null. -/
theorem distinct_eq_null_iff {v : Json} : v.distinct = .null ↔ v = .null := by
  cases v <;> simp [Json.distinct]

/-- A view that is read is not null. -/
theorem plain_of_optional? {v : Json} {view : Option Json} (hv : v.AllNumbers P)
    (h : optional? (fun view => some view.toJson) (ofJson v) = some view) :
    ∀ w, view = some w → w ≠ .null ∧ Plain P w := by
  rintro w rfl
  rw [optional?, Setting.isNull_ofJson, Setting.toJson_ofJson] at h
  split at h
  · cases h
  · rename_i hnull
    cases h
    exact ⟨fun heq => hnull (isNull_iff.2 (distinct_eq_null_iff.1 heq)), plain_distinct hv⟩

/-- The other fields are those without a meaning. -/
theorem extraOf_ofFields (fields : List (String × Json)) :
    extraOf (ofFields fields) = Fields.ofList (Json.distinctFields
      (fields.filter fun field => !knownFields.contains field.1)) := by
  rw [extraOf, Setting.filter_ofFields fun name => !knownFields.contains name,
    Setting.toFields_ofFields]

/-- Values of fields are made regular under their names. -/
theorem distinctFields_eq_mapValues (fields : List (String × Json)) :
    Json.distinctFields fields = Fields.mapValues Json.distinct fields := by
  induction fields with
  | nil => rfl
  | cons field rest ih => rw [Json.distinctFields, ih, Fields.mapValues_cons]

/-- Further fields have names that routes do not know, and plain values. -/
theorem plain_of_mem_extraOf {fields : List (String × Json)}
    (hfields : Json.AllNumbersFields P fields) {field : String × Json}
    (h : field ∈ extraOf (ofFields fields)) : field.1 ∉ knownFields ∧ Plain P field.2 := by
  rw [extraOf_ofFields, Fields.mem_ofList_iff, distinctFields_eq_mapValues] at h
  obtain ⟨before, after, hlist, -⟩ := h
  obtain ⟨source, hsource, rfl⟩ :=
    List.mem_map.1 (hlist ▸ List.mem_append_right _ List.mem_cons_self)
  obtain ⟨hmem, hunknown⟩ := List.mem_filter.1 hsource
  exact ⟨by simpa using hunknown, plain_distinct (Json.allNumbersFields_iff.1 hfields source hmem)⟩

/-- Of nested routes that are given once, all can be read if each list of them can. -/
theorem allReadable_of_single? {nested : List (List RouteConfig)} {routes : List RouteConfig}
    (h : single? nested = some routes) (hnested : ∀ routes ∈ nested, AllReadable P routes) :
    AllReadable P routes := by
  unfold single? at h
  split at h
  · cases h
    trivial
  · cases h
    exact hnested _ (List.mem_singleton.2 rfl)
  · cases h

mutual

/-- What is known of a configuration that is read from a value. -/
theorem readable_ofSetting? : ∀ {v : Json} {c : RouteConfig}, v.AllNumbers P →
    ofSetting? (ofJson v) = some c → c.Readable P
  | .object fields, c, hv, h => by
    obtain ⟨nested, hnested, hassemble⟩ := Option.bind_eq_some_iff.1 h
    obtain ⟨-, -, -, -, hview, hroutes, hextra⟩ := assemble?_eq_some_iff.1 hassemble
    obtain ⟨path, name, component, active, view, routes, extra⟩ := c
    obtain rfl : extraOf (ofFields fields) = extra := hextra
    refine ⟨?_, ?_, ?_, ?_⟩
    · rcases Setting.exists_of_field? hview with hnone | ⟨v, hmem, hread⟩
      · cases hnone
        simp
      · exact plain_of_optional? (Json.allNumbersFields_iff.1 hv _ hmem) hread
    · exact allReadable_of_single? hroutes (readable_ofNested? hv hnested)
    · exact Fields.distinct_ofList _
    · exact fun field hfield => plain_of_mem_extraOf hv hfield
  | .null, _, _, h | .bool _, _, _, h | .number _, _, _, h | .string _, _, _, h
  | .array _, _, _, h => by cases h

/-- A list of routes that was read from a value can be read again. -/
theorem readable_ofList? : ∀ {v : Json} {cs : List RouteConfig}, v.AllNumbers P →
    ofList? (ofJson v) = some cs → AllReadable P cs
  | .array items, _, hv, h => readable_ofItems? hv h
  | .null, _, _, h | .bool _, _, _, h | .number _, _, _, h | .string _, _, _, h
  | .object _, _, _, h => by cases h

/-- So can the routes that were read from its items. -/
theorem readable_ofItems? : ∀ {items : List Json} {cs : List RouteConfig},
    Json.AllNumbersItems P items → ofItems? (Setting.ofItems items) = some cs → AllReadable P cs
  | [], _, _, h => by
    cases h
    trivial
  | x :: xs, _, hv, h => by
    simp only [Setting.ofItems, ofItems?, Option.bind_eq_bind, Option.bind_eq_some_iff] at h
    obtain ⟨route, hroute, routes, hroutes, ⟨⟩⟩ := h
    exact ⟨readable_ofSetting? hv.1 hroute, readable_ofItems? hv.2 hroutes⟩

/-- So can the routes that were read below a route. -/
theorem readable_ofNested? : ∀ {fields : List (String × Json)} {nested : List (List RouteConfig)},
    Json.AllNumbersFields P fields → ofNested? (ofFields fields) = some nested →
      ∀ routes ∈ nested, AllReadable P routes
  | [], _, _, h => by
    cases h
    simp
  | (name, x) :: rest, nested, hv, h => by
    rw [ofFields, ofNested?] at h
    split at h
    · simp only [Option.bind_eq_bind, Option.bind_eq_some_iff] at h
      obtain ⟨routes, hroutes, others, hothers, ⟨⟩⟩ := h
      exact List.forall_mem_cons.2
        ⟨readable_ofList? hv.1 hroutes, readable_ofNested? hv.2 hothers⟩
    · exact readable_ofNested? hv.2 h

end

/-! ## Written forms -/

/-- The fields with a meaning that are written. -/
def ownFields : RouteConfig → List (String × Json)
  | ⟨path, name, component, active, view, routes, _⟩ =>
    [("path", .string path)] ++ present "name" (name.map .string)
      ++ present "component" (component.map .string) ++ [("active", .bool active)]
      ++ present "view" view
      ++ present "routes" (if routes.isEmpty then none else some (.array (toItems routes)))

/-- A route is written with its own fields first and its further fields behind them. -/
theorem toJson_eq (c : RouteConfig) : c.toJson = .object (ownFields c ++ c.extra) := by
  obtain ⟨path, name, component, active, view, routes, extra⟩ := c
  rw [toJson, ownFields]
  cases routes <;> rfl

/-- A field that may be missing is found under its name only. -/
theorem lookup_present (name other : String) (value : Option Json) :
    (present name value).lookup other = if other = name then value else none := by
  cases value with
  | none => simp [present]
  | some v => simp [present, Fields.lookup_cons]

/-- A field that may be missing has at most its name. -/
theorem names_present_sublist (name : String) (value : Option Json) :
    (Fields.names (present name value)).Sublist [name] := by
  cases value <;> simp [present]

/-- They are written in the order of their names. -/
theorem names_ownFields_sublist (c : RouteConfig) :
    (Fields.names (ownFields c)).Sublist knownFields := by
  obtain ⟨path, name, component, active, view, routes, extra⟩ := c
  have hnames : ∀ front back : List (String × Json),
      Fields.names (front ++ back) = Fields.names front ++ Fields.names back :=
    fun front back => List.map_append
  simp only [ownFields, hnames]
  exact (((((List.Sublist.refl ["path"]).append (names_present_sublist "name" _)).append
    (names_present_sublist "component" _)).append (List.Sublist.refl ["active"])).append
      (names_present_sublist "view" _)).append (names_present_sublist "routes" _)

/-- Every field is written once. -/
theorem distinct_written {c : RouteConfig} (hextra : Fields.Distinct c.extra)
    (hunknown : ∀ field ∈ c.extra, field.1 ∉ knownFields) :
    Fields.Distinct (ownFields c ++ c.extra) := by
  have hown := names_ownFields_sublist c
  rw [Fields.Distinct, Fields.names, List.map_append, List.nodup_append]
  refine ⟨hown.nodup (by decide), hextra, ?_⟩
  rintro name hname _ hother rfl
  obtain ⟨field, hfield, rfl⟩ := List.mem_map.1 hother
  exact hunknown field hfield (hown.subset hname)

/-- Looking up a name with a meaning finds what is written for it. -/
theorem lookup_written {c : RouteConfig} (hunknown : ∀ field ∈ c.extra, field.1 ∉ knownFields)
    {name : String} (hname : name ∈ knownFields) :
    (ownFields c ++ c.extra).lookup name = (ownFields c).lookup name := by
  have hextra : c.extra.lookup name = none := by
    refine Fields.lookup_eq_none_iff.2 fun hmem => ?_
    obtain ⟨field, hfield, rfl⟩ := List.mem_map.1 hmem
    exact hunknown field hfield hname
  rw [List.lookup_append, hextra, Option.or_none]

/-- What is written for each name with a meaning. -/
theorem lookup_ownFields (c : RouteConfig) :
    (ownFields c).lookup "path" = some (.string c.path) ∧
    (ownFields c).lookup "name" = c.name.map .string ∧
    (ownFields c).lookup "component" = c.component.map .string ∧
    (ownFields c).lookup "active" = some (.bool c.active) ∧
    (ownFields c).lookup "view" = c.view ∧
    (ownFields c).lookup "routes" =
      if c.routes.isEmpty then none else some (.array (toItems c.routes)) := by
  obtain ⟨path, name, component, active, view, routes, extra⟩ := c
  simp [ownFields, List.lookup_append, lookup_present, Fields.lookup_cons]

/-- A text that may be missing comes back. -/
theorem text_written (text : Option String) :
    (text.map Json.string).elim (some none) (fun v => optional? Setting.string? (ofJson v)) =
      some text := by
  cases text <;> rfl

/-- A value that may be missing comes back, as it is not null. -/
theorem value_written {view : Option Json} (h : ∀ v, view = some v → v ≠ .null ∧ v.Regular) :
    view.elim (some none) (fun v => optional? (fun view => some view.toJson) (ofJson v)) =
      some view := by
  cases view with
  | none => rfl
  | some v =>
    obtain ⟨hnull, hregular⟩ := h v rfl
    rw [Option.elim_some, optional?, Setting.isNull_ofJson, Setting.toJson_ofJson,
      Json.distinct_of_regular hregular, if_neg (mt isNull_iff.1 hnull), Option.map_some]

/-- The other fields come back. -/
theorem extraOf_written {c : RouteConfig} (hextra : Fields.Distinct c.extra)
    (hplain : ∀ field ∈ c.extra, field.1 ∉ knownFields ∧ field.2.Regular) :
    extraOf (ofFields (ownFields c ++ c.extra)) = c.extra := by
  have hown : (ownFields c).filter (fun field => !knownFields.contains field.1) = [] := by
    refine List.filter_eq_nil_iff.2 fun field hfield => ?_
    have hknown := (names_ownFields_sublist c).subset (List.mem_map_of_mem hfield)
    simpa using hknown
  have hkept : c.extra.filter (fun field => !knownFields.contains field.1) = c.extra :=
    List.filter_eq_self.2 fun field hfield => by simpa using (hplain field hfield).1
  rw [extraOf_ofFields, List.filter_append, hown, hkept, List.nil_append,
    Json.distinctFields_of_regular fun field hfield => (hplain field hfield).2,
    Fields.ofList_of_distinct hextra]

/-- Only fields for the routes below a configuration matter for these. -/
theorem ofNested?_filter (fields : List (String × Setting)) :
    ofNested? (fields.filter fun field => field.1 == "routes") = ofNested? fields := by
  induction fields with
  | nil => rfl
  | cons field rest ih =>
    obtain ⟨name, value⟩ := field
    by_cases hname : name = "routes"
    · rw [List.filter_cons_of_pos (by simpa using hname), ofNested?, ofNested?, ih]
    · rw [List.filter_cons_of_neg (by simpa using hname), ih, ofNested?, if_neg hname]

/-- The routes below a route are found among its written fields, exactly once, and read back. -/
theorem ofNested?_written {c : RouteConfig} (hdistinct : Fields.Distinct (ownFields c ++ c.extra))
    (hunknown : ∀ field ∈ c.extra, field.1 ∉ knownFields)
    (hroutes : ofItems? (Setting.ofItems (toItems c.routes)) = some c.routes) :
    ∃ nested, ofNested? (ofFields (ownFields c ++ c.extra)) = some nested ∧
      single? nested = some c.routes := by
  have hfound : (ownFields c ++ c.extra).lookup "routes" =
      if c.routes.isEmpty then none else some (.array (toItems c.routes)) := by
    rw [lookup_written hunknown (by decide), (lookup_ownFields c).2.2.2.2.2]
  rw [← ofNested?_filter, Setting.filter_ofFields fun name => name == "routes",
    Fields.filter_name_of_distinct hdistinct, hfound]
  cases hcase : c.routes with
  | nil => exact ⟨[], rfl, rfl⟩
  | cons first others =>
    rw [hcase] at hroutes
    refine ⟨[first :: others], ?_, rfl⟩
    simp only [List.isEmpty_cons, Bool.false_eq_true, if_false, Option.toList_some, List.map_cons,
      List.map_nil, ofFields, ofNested?, if_true, ofJson, ofList?, hroutes]
    rfl

/-- The fields of a written configuration are read as they were. -/
theorem assemble?_written {c : RouteConfig} {nested : List (List RouteConfig)}
    (hsingle : single? nested = some c.routes)
    (hview : ∀ v, c.view = some v → v ≠ .null ∧ v.Regular)
    (hextra : Fields.Distinct c.extra)
    (hplain : ∀ field ∈ c.extra, field.1 ∉ knownFields ∧ field.2.Regular) :
    assemble? (ofFields (ownFields c ++ c.extra)) nested = some c := by
  have hunknown : ∀ field ∈ c.extra, field.1 ∉ knownFields := fun field hfield =>
    (hplain field hfield).1
  have hdistinct := distinct_written hextra hunknown
  have hread : ∀ name ∈ knownFields, ∀ {α : Type} (read : Setting → Option α) (standard : Option α),
      field? (ofFields (ownFields c ++ c.extra)) name read standard =
        ((ownFields c).lookup name).elim standard fun v => read (ofJson v) :=
    fun name hname α read standard => by
      rw [Setting.field?_ofFields hdistinct, lookup_written hunknown hname]
  obtain ⟨hpath, hname, hcomponent, hactive, hlookup, -⟩ := lookup_ownFields c
  refine assemble?_eq_some_iff.2 ⟨?_, ?_, ?_, ?_, ?_, hsingle, extraOf_written hextra hplain⟩
  · rw [hread "path" (by decide), hpath]
    rfl
  · rw [hread "name" (by decide), hname, text_written]
  · rw [hread "component" (by decide), hcomponent, text_written]
  · rw [hread "active" (by decide), hactive]
    rfl
  · rw [hread "view" (by decide), hlookup, value_written hview]

mutual

/-- A written configuration is read as it was. -/
theorem ofSetting?_toJson : ∀ {c : RouteConfig}, c.Readable P →
    ofSetting? (ofJson c.toJson) = some c
  | ⟨path, name, component, active, view, routes, extra⟩, h => by
    obtain ⟨hview, hroutes, hextra, hplain⟩ := h
    have hunknown : ∀ field ∈ extra, field.1 ∉ knownFields := fun field hfield =>
      (hplain field hfield).1
    have hdistinct : Fields.Distinct (ownFields ⟨path, name, component, active, view, routes, extra⟩
        ++ extra) := distinct_written hextra hunknown
    obtain ⟨nested, hnested, hsingle⟩ :=
      ofNested?_written hdistinct hunknown (ofItems?_toItems hroutes)
    rw [toJson_eq]
    show (ofNested? (ofFields _)).bind (assemble? (ofFields _)) = _
    rw [hnested, Option.bind_some]
    exact assemble?_written hsingle (fun v hv => ⟨(hview v hv).1, (hview v hv).2.1⟩) hextra
      fun field hfield => ⟨(hplain field hfield).1, (hplain field hfield).2.1⟩

/-- Written lists of routes are read back. -/
theorem ofItems?_toItems : ∀ {cs : List RouteConfig}, AllReadable P cs →
    ofItems? (Setting.ofItems (toItems cs)) = some cs
  | [], _ => rfl
  | c :: cs, h => by
    rw [toItems, Setting.ofItems, ofItems?, ofSetting?_toJson h.1, ofItems?_toItems h.2]
    rfl

end

/-- A configuration that is read from any value is read again from its written form. -/
theorem ofSetting?_toJson_of_read {v : Json} {c : RouteConfig}
    (h : ofSetting? (ofJson v) = some c) : ofSetting? (ofJson c.toJson) = some c :=
  ofSetting?_toJson
    (readable_ofSetting? (P := fun _ => True) (Json.allNumbers_of_forall (fun _ => trivial) v) h)

/-! ## Telling configurations apart -/

/-- The numbers in a written route are those of its view and of the routes below. -/
theorem allNumbers_ownFields {c : RouteConfig} (hview : ∀ v, c.view = some v → v.AllNumbers P)
    (hroutes : Json.AllNumbersItems P (toItems c.routes)) :
    Json.AllNumbersFields P (ownFields c) := by
  have hpresent : ∀ (name : String) (value : Option Json), (∀ v, value = some v → v.AllNumbers P) →
      ∀ field ∈ present name value, field.2.AllNumbers P := by
    rintro name (_ | v) hvalue field hfield
    · cases hfield
    · obtain rfl := List.mem_singleton.1 hfield
      exact hvalue v rfl
  have htext : ∀ text : Option String, ∀ v, text.map Json.string = some v → v.AllNumbers P := by
    rintro (_ | text) v ⟨⟩
    trivial
  obtain ⟨path, name, component, active, view, routes, extra⟩ := c
  simp only [Json.allNumbersFields_iff, ownFields, List.forall_mem_append,
    List.forall_mem_singleton]
  refine ⟨⟨⟨⟨⟨trivial, hpresent _ _ (htext name)⟩, hpresent _ _ (htext component)⟩, trivial⟩,
    hpresent _ _ hview⟩, hpresent _ _ fun v hv => ?_⟩
  split at hv
  · cases hv
  · cases hv
    exact hroutes

mutual

/-- The numbers of a written configuration are those that were read. -/
theorem Readable.allNumbers_toJson : ∀ {c : RouteConfig}, c.Readable P → c.toJson.AllNumbers P
  | ⟨path, name, component, active, view, routes, extra⟩, h => by
    obtain ⟨hview, hroutes, -, hplain⟩ := h
    rw [toJson_eq, Json.AllNumbers, Json.allNumbersFields_iff, List.forall_mem_append]
    exact ⟨Json.allNumbersFields_iff.1 (allNumbers_ownFields (fun v hv => (hview v hv).2.2)
      hroutes.allNumbers_toItems), fun field hfield => (hplain field hfield).2.2⟩

/-- The numbers in written routes are plain if the routes can be read. -/
theorem AllReadable.allNumbers_toItems :
    ∀ {cs : List RouteConfig}, AllReadable P cs → Json.AllNumbersItems P (toItems cs)
  | [], _ => trivial
  | _ :: _, h => ⟨h.1.allNumbers_toJson, h.2.allNumbers_toItems⟩

end

/-- The text of the written form says which configurations were written, where numbers are told
apart by their texts. -/
theorem listToJson_text_inj (hnumbers : Number.ToldApart P) {cs ds : List RouteConfig}
    (hcs : AllReadable P cs) (hds : AllReadable P ds)
    (h : (listToJson cs).text = (listToJson ds).text) : cs = ds := by
  have hwritten : listToJson cs = listToJson ds :=
    Json.text_inj hnumbers hcs.allNumbers_toItems hds.allNumbers_toItems h
  have hitems : toItems cs = toItems ds := Json.array.inj hwritten
  have hread := ofItems?_toItems hcs
  rw [hitems, ofItems?_toItems hds] at hread
  exact (Option.some.inj hread).symm

end RouteConfig

end ViewSchema
