import ViewSchema.Proofs.Compile.Budget
import ViewSchema.Proofs.Json.Equality
import ViewSchema.Proofs.Responsive.Overrides

/-!
# Overrides before and during compilation

Overrides can be laid over a whole schema before it is compiled, or over each section right
before that section is compiled.  Both give the same tree where the objects that have a name
or a component are just those that the compiler takes for sections.  An entry in a map of
sections that has neither is compiled under its key, but its overrides are left where they are.

Main results:

- Definition `Compiler.buildAt`: compiling with the overrides laid over each section in turn.
- Definition `Compiler.Marked`: what is taken for a section is compiled as one, and the other
  way round.
- Theorem `Compiler.compileSection_insideAt`: one section, compiled either way.
- Theorem `Compiler.build_applyBreakpoint`: a whole schema, compiled either way.
-/

namespace ViewSchema

variable {table : BreakpointTable} {breakpoint : String} {fields own : List (String × Json)}
  {name : String}

/-! ## Overrides during compilation -/

namespace Section

/-- A section with a name of its own after its overrides, and the name it has then. -/
def selfAt (table : BreakpointTable) (breakpoint name : String) (fields : List (String × Json)) :
    String × List (String × Json) :=
  let own := responsiveProps table breakpoint fields
  ((name? own).getD name, own)

/-- The value of an entry in a map of sections after the overrides. -/
def valueAt (table : BreakpointTable) (breakpoint : String) : Json → Json
  | .object fields => .object (responsiveProps table breakpoint fields)
  | other => other

/-- The section of an entry in a map of sections after its overrides, and its name. -/
def entryAt (table : BreakpointTable) (breakpoint : String) (entry : String × Json) :
    String × List (String × Json) :=
  let own := ofEntry entry.1 (valueAt table breakpoint entry.2)
  ((name? own).getD entry.1, own)

/-- The sections that an object stands for, after their overrides: the object itself if it has a
name, else its entries. -/
def allAt (table : BreakpointTable) (breakpoint : String) (fields : List (String × Json)) :
    List (String × List (String × Json)) :=
  match name? fields with
  | some name => [selfAt table breakpoint name fields]
  | none => fields.map (entryAt table breakpoint)

end Section

namespace Compiler

variable {c : Compiler} {recur recur' : Json → Scope → Compilation Node} {s t : Scope}

/-- Compile a value, laying the overrides over its sections before they are compiled. -/
def stepAt (c : Compiler) (table : BreakpointTable) (breakpoint : String)
    (recur : Json → Scope → Compilation Node) (value : Json) (scope : Scope) : Compilation Node :=
  match value with
  | .object fields =>
    match Section.name? fields with
    | some name =>
      let (name, own) := Section.selfAt table breakpoint name fields
      c.compileSection recur own name scope
    | none => do
      let nodes ← Compilation.forEach (fun entry =>
        let (name, own) := Section.entryAt table breakpoint entry
        c.compileSection recur own name scope) fields
      pure (.ofList nodes)
  | other => c.step recur other scope

/-- Compile a value with a budget of nested steps, laying the overrides over each section right
before it is compiled. -/
def buildAt (c : Compiler) (table : BreakpointTable) (breakpoint : String) :
    Nat → Json → Scope → Compilation Node
  | 0, _, _ => .exhausted
  | budget + 1, value, scope =>
    c.stepAt table breakpoint (c.buildAt table breakpoint budget) value scope

/-! ## Sections that are marked as such -/

/-- Whether the field of a section is compiled: as a label, as its content or as a slot. -/
def compiles (c : Compiler) (own : List (String × Json)) (field : String) : Bool :=
  Section.renderedFields.contains field ||
    (field == "content" && !(c.descriptorOf own).keepsRawContent) ||
    ((c.descriptorOf own).slots.contains field && !Section.reservedFields.contains field)

/-- The fields of a section that are not compiled are data: overrides would be laid over what
looks like a section in them, so nothing does. -/
def KeepsData (c : Compiler) (table : BreakpointTable) (breakpoint : String)
    (own : List (String × Json)) : Prop :=
  ∀ field ∈ own, c.compiles own field.1 = false →
    applyBreakpoint table breakpoint field.2 = field.2

end Compiler

/-- The overrides reach the sections that an object stands for, and nothing else: a section has a
name also after its overrides, and a map of sections is not taken for a section, but each of its
entries is. -/
def ReachesSections (table : BreakpointTable) (breakpoint : String)
    (fields : List (String × Json)) : Prop :=
  match Section.name? fields with
  | some _ => (Section.name? (responsiveProps table breakpoint fields)).isSome
  | none => fieldsAt table breakpoint fields = fields ∧
      ∀ key own, (key, Json.object own) ∈ fields →
        fieldsAt table breakpoint own = responsiveProps table breakpoint own

/-- `c.Marked table breakpoint value`: wherever `c` finds sections in a value, the overrides
reach them, and they change nothing in the data that active sections hand on.  A mutation does
not care whether it comes before or after overrides further inside. -/
inductive Compiler.Marked (c : Compiler) (table : BreakpointTable) (breakpoint : String) :
    Json → Prop
  | leaf {value : Json} : value.isArray = false → value.isObject = false →
      Marked c table breakpoint value
  | array {items : List Json} : (∀ item ∈ items, Marked c table breakpoint item) →
      Marked c table breakpoint (.array items)
  | object {fields : List (String × Json)} : ReachesSections table breakpoint fields →
      (∀ found ∈ Section.allAt table breakpoint fields,
        c.mutated found.1 (insideAt table breakpoint found.2) =
          insideAt table breakpoint (c.mutated found.1 found.2)) →
      (∀ found ∈ Section.allAt table breakpoint fields,
        Section.isInactive (c.mutated found.1 found.2) = false →
          ∀ field ∈ c.mutated found.1 found.2,
            c.compiles (c.mutated found.1 found.2) field.1 = true →
              Marked c table breakpoint field.2) →
      (∀ found ∈ Section.allAt table breakpoint fields,
        Section.isInactive (c.mutated found.1 found.2) = false →
          c.KeepsData table breakpoint (c.mutated found.1 found.2)) →
      Marked c table breakpoint (.object fields)

/-! ## One section -/

namespace Compilation

variable {α β γ : Type}

/-- Lists are compiled alike when their items are. -/
theorem forEach_congr {f f' : α → Compilation γ} {xs : List α} (h : ∀ x ∈ xs, f x = f' x) :
    forEach f xs = forEach f' xs := by
  induction xs with
  | nil => rfl
  | cons x xs ih =>
    rw [forEach, forEach, h x List.mem_cons_self,
      ih fun y hy => h y (List.mem_cons_of_mem _ hy)]

/-- Items may be changed before they are compiled, or while they are. -/
theorem forEach_map (f : β → Compilation γ) (g : α → β) (xs : List α) :
    forEach f (xs.map g) = forEach (fun x => f (g x)) xs := by
  induction xs with
  | nil => rfl
  | cons x xs ih => rw [List.map_cons, forEach, forEach, ih]

end Compilation

namespace Compiler

variable {c : Compiler} {recur recur' : Json → Scope → Compilation Node} {s t : Scope}
  {m : List (String × Json)}

namespace KeepsData

/-- What is found in such a field is the same. -/
theorem lookup_eq (h : c.KeepsData table breakpoint m) (hname : c.compiles m name = false) :
    (insideAt table breakpoint m).lookup name = m.lookup name := by
  rw [lookup_insideAt]
  cases hvalue : m.lookup name with
  | none => rfl
  | some value => rw [Option.map_some, h _ (Fields.mem_of_lookup hvalue) hname]

end KeepsData

/-- Reserved fields are not compiled, but for the labels and the content. -/
theorem compiles_of_reserved (hreserved : name ∈ Section.reservedFields)
    (hlabel : name ∉ Section.renderedFields) (hcontent : name ≠ "content") :
    c.compiles m name = false := by
  simp [compiles, hreserved, hlabel, hcontent]

/-- Neither is what a section hands on besides its slots. -/
theorem compiles_of_mem_without (hdistinct : Fields.Distinct m) {field : String × Json}
    (hfield : field ∈ Section.without (Section.handedOn m) (c.descriptorOf m).slots) :
    c.compiles m field.1 = false := by
  have hhanded := Section.distinct_handedOn hdistinct
  have hlookup := (Fields.lookup_eq_some_iff
    (Section.distinct_without hhanded (c.descriptorOf m).slots)).2 hfield
  rw [Section.lookup_without hhanded, Section.lookup_handedOn hdistinct] at hlookup
  have hslot : field.1 ∉ (c.descriptorOf m).slots := by
    intro hmem
    rw [if_pos hmem] at hlookup
    cases hlookup
  have hreserved : field.1 ∉ Section.reservedFields := by
    intro hmem
    rw [if_neg hslot, if_pos hmem] at hlookup
    cases hlookup
  have hsubset : ∀ label ∈ Section.renderedFields, label ∈ Section.reservedFields := by decide
  have hlabel : field.1 ∉ Section.renderedFields := fun hmem => hreserved (hsubset _ hmem)
  have hcontent : field.1 ≠ "content" := by
    intro heq
    rw [heq] at hreserved
    exact hreserved (by decide)
  simp [compiles, hslot, hlabel, hcontent]

/-- Slots are compiled. -/
theorem compiles_of_mem_slots (hdistinct : Fields.Distinct m) (field : String × Json)
    (hfield : field ∈ Section.present (Section.handedOn m) (c.descriptorOf m).slots) :
    c.compiles m field.1 = true := by
  obtain ⟨slot, hslot, hvalue⟩ := List.mem_filterMap.1 hfield
  obtain ⟨value, hlookup, rfl⟩ := Option.map_eq_some_iff.1 hvalue
  rw [Section.lookup_handedOn hdistinct] at hlookup
  have hkept : slot ∉ Section.reservedFields := by
    intro hmem
    rw [if_pos hmem] at hlookup
    cases hlookup
  simp [compiles, hslot, hkept]

/-- So are labels. -/
theorem compiles_of_mem_labels (field : String × Json)
    (hfield : field ∈ Section.present m Section.renderedFields) :
    c.compiles m field.1 = true := by
  obtain ⟨label, hlabel, hvalue⟩ := List.mem_filterMap.1 hfield
  obtain ⟨value, -, rfl⟩ := Option.map_eq_some_iff.1 hvalue
  simp [compiles, hlabel]

@[simp] theorem descriptorOf_insideAt (c : Compiler) (m : List (String × Json)) :
    c.descriptorOf (insideAt table breakpoint m) = c.descriptorOf m := by
  simp only [descriptorOf, Fields.string?_insideAt]

/-- A section is assembled alike. -/
theorem KeepsData.assemble_eq (h : c.KeepsData table breakpoint m)
    (hdistinct : Fields.Distinct m) (name : String) (rendered : List (String × Node))
    (children : List Node) :
    c.assemble (c.descriptorOf m) name (insideAt table breakpoint m) rendered children =
      c.assemble (c.descriptorOf m) name m rendered children := by
  have hreserved : ∀ name ∈ ["wrapper", "wrapperClasses", "wrapperStyle", "managerName"],
      (insideAt table breakpoint m).lookup name = m.lookup name := by
    intro name hname
    refine h.lookup_eq (compiles_of_reserved ?_ ?_ ?_) <;> revert name <;> decide
  have hwrapping : c.wrapping (c.descriptorOf m) (insideAt table breakpoint m) =
      c.wrapping (c.descriptorOf m) m := by
    have htag : ((insideAt table breakpoint m).lookup "tag").map (fun t => !t.isNull) =
        (m.lookup "tag").map fun t => !t.isNull := by
      rw [lookup_insideAt]
      cases m.lookup "tag" <;> simp
    simp only [wrapping, Fields.string?_insideAt, hreserved "wrapper" (by decide), htag]
  have hprops : c.sectionProps (c.descriptorOf m) name (insideAt table breakpoint m) =
      c.sectionProps (c.descriptorOf m) name m := by
    have hkept : insideAt table breakpoint
        (Section.without (Section.handedOn m) (c.descriptorOf m).slots) =
          Section.without (Section.handedOn m) (c.descriptorOf m).slots :=
      Fields.mapValues_eq_self fun field hfield =>
        h field (Section.mem_of_mem_without (Section.mem_of_mem_without hfield))
          (compiles_of_mem_without hdistinct hfield)
    unfold sectionProps
    rw [Section.handedOn_insideAt, Section.without_insideAt, hkept,
      hreserved "managerName" (by decide)]
    cases hraw : (c.descriptorOf m).keepsRawContent with
    | false => rfl
    | true =>
      have hcontent : c.compiles m "content" = false := by
        have hlabel : "content" ∉ Section.renderedFields := by decide
        have hreserved : "content" ∈ Section.reservedFields := by decide
        simp [compiles, hraw, hlabel, hreserved]
      rw [h.lookup_eq hcontent]
  have hwrap : ∀ tag inner, c.wrapperElement tag name (insideAt table breakpoint m) inner =
      c.wrapperElement tag name m inner := by
    intro tag inner
    simp only [wrapperElement, hreserved "wrapperClasses" (by decide),
      hreserved "wrapperStyle" (by decide)]
  unfold assemble
  simp only [hwrapping, hprops, hwrap]

/-- Texts inside of a section look the same. -/
theorem sameTexts_insideAt (c : Compiler) (s t : Scope) (name : String)
    (own : List (String × Json)) :
    c.SameTexts (s.enter name (insideAt table breakpoint own)) (t.enter name own) := by
  intro value
  simp only [leafText, Scope.enter, Scope.options?, List.head?_cons, Option.map_some,
    Formatter.format_insideAt]

/-- Two ways to compile what stands inside of a section agree on its compiled fields, if one of
them finds the overrides laid over each field and the other one lays them. -/
def AgreesInside (c : Compiler) (table : BreakpointTable) (breakpoint : String)
    (recur recur' : Json → Scope → Compilation Node) (own : List (String × Json)) : Prop :=
  ∀ field ∈ own, c.compiles own field.1 = true → ∀ s t, c.SameTexts s t →
    recur (applyBreakpoint table breakpoint field.2) s = recur' field.2 t

namespace AgreesInside

theorem buildNamed (h : c.AgreesInside table breakpoint recur recur' m)
    (hscope : c.SameTexts s t) {fields : List (String × Json)} (hmem : ∀ field ∈ fields, field ∈ m)
    (hcompiles : ∀ field ∈ fields, c.compiles m field.1 = true) :
    Compiler.buildNamed recur s (insideAt table breakpoint fields) =
      Compiler.buildNamed recur' t fields := by
  rw [Compiler.buildNamed, insideAt, Fields.mapValues, Compilation.forEach_map]
  refine Compilation.forEach_congr fun field hfield => ?_
  rw [h field (hmem field hfield) (hcompiles field hfield) s t hscope]

theorem sectionChildren (h : c.AgreesInside table breakpoint recur recur' m)
    (hraw : (c.descriptorOf m).keepsRawContent = false) (hscope : c.SameTexts s t) :
    c.sectionChildren recur (insideAt table breakpoint m) s = c.sectionChildren recur' m t := by
  have hsupplied : c.receivesChildren (insideAt table breakpoint m) = c.receivesChildren m := by
    simp only [receivesChildren, Section.name?_insideAt]
  have hcompiles : c.compiles m "content" = true := by simp [compiles, hraw]
  simp only [Compiler.sectionChildren, lookup_insideAt, hsupplied]
  cases hcontent : m.lookup "content" with
  | none => rfl
  | some content =>
    have hsame := h _ (Fields.mem_of_lookup hcontent) hcompiles s t hscope
    simp only [Option.map_some, hsame]

end AgreesInside

/-- A mutated section is compiled alike, with the overrides laid over what is inside of it and
with the overrides laid during compilation. -/
theorem compileMutated_insideAt (hdistinct : Fields.Distinct m)
    (hinside : Section.isInactive m = false → c.AgreesInside table breakpoint recur recur' m)
    (hdata : Section.isInactive m = false → c.KeepsData table breakpoint m) (s t : Scope) :
    c.compileMutated recur (insideAt table breakpoint m) name s =
      c.compileMutated recur' m name t := by
  cases hactive : Section.isInactive m with
  | true => simp only [compileMutated, Section.isInactive_insideAt, hactive, if_true]
  | false =>
    have hagrees := hinside hactive
    have hscope : c.SameTexts (s.enter name (insideAt table breakpoint (Section.handedOn m)))
        (t.enter name (Section.handedOn m)) := c.sameTexts_insideAt s t name _
    have hhanded : ∀ field ∈ Section.present (Section.handedOn m) (c.descriptorOf m).slots,
        field ∈ m := fun field hfield =>
      Section.mem_of_mem_without (Section.mem_of_mem_present hfield)
    have hslots := hagrees.buildNamed hscope hhanded (compiles_of_mem_slots hdistinct)
    have hlabels := hagrees.buildNamed hscope
      (fun field hfield => Section.mem_of_mem_present hfield) compiles_of_mem_labels
    have hassemble := (hdata hactive).assemble_eq hdistinct name
    simp only [compileMutated, Section.isInactive_insideAt, hactive, descriptorOf_insideAt,
      Section.handedOn_insideAt, Section.present_insideAt, hslots, hlabels, hassemble]
    cases hraw : (c.descriptorOf m).keepsRawContent with
    | true => rfl
    | false => simp only [hagrees.sectionChildren hraw hscope]

/-- A section is compiled alike either way, if a mutation does not care about overrides further
inside. -/
theorem compileSection_insideAt (hdistinct : Fields.Distinct (c.mutated name own))
    (hmutated : c.mutated name (insideAt table breakpoint own) =
      insideAt table breakpoint (c.mutated name own))
    (hinside : Section.isInactive (c.mutated name own) = false →
      c.AgreesInside table breakpoint recur recur' (c.mutated name own))
    (hdata : Section.isInactive (c.mutated name own) = false →
      c.KeepsData table breakpoint (c.mutated name own)) (s t : Scope) :
    c.compileSection recur (insideAt table breakpoint own) name s =
      c.compileSection recur' own name t := by
  rw [compileSection_eq, compileSection_eq, hmutated]
  exact congrArg _ (funext fun _ => compileMutated_insideAt hdistinct hinside hdata s t)

end Compiler

/-! ## Whole schemas -/

namespace Section

/-- Regular objects stand for regular sections. -/
theorem regular_of_mem_allAt (h : (Json.object fields).Regular)
    {found : String × List (String × Json)} (hfound : found ∈ allAt table breakpoint fields) :
    (Json.object found.2).Regular := by
  unfold allAt at hfound
  split at hfound
  · rw [List.mem_singleton.1 hfound]
    exact h.responsiveProps table breakpoint
  · obtain ⟨⟨key, entry⟩, hentry, rfl⟩ := List.mem_map.1 hfound
    have hvalue := (Json.regular_object_iff.1 h).2 _ hentry
    refine regular_ofEntry ?_ key
    cases entry with
    | object own => exact hvalue.responsiveProps table breakpoint
    | _ => exact hvalue

/-- A value that is no object is the content of its section. -/
theorem ofEntry_of_not_object {value : Json} (h : value.isObject = false) (key : String) :
    ofEntry key value = [("name", .string key), ("content", value)] := by
  cases value with
  | object => cases h
  | _ => rfl

/-- An entry whose overrides are reached gets them before it is compiled under its key. -/
theorem ofEntry_applyBreakpoint {entry : Json} (h : ∀ own, entry = .object own →
      fieldsAt table breakpoint own = responsiveProps table breakpoint own) (key : String) :
    ofEntry key (applyBreakpoint table breakpoint entry) =
      insideAt table breakpoint (ofEntry key (valueAt table breakpoint entry)) := by
  have hkey : applyBreakpoint table breakpoint (.string key) = .string key :=
    applyBreakpoint_eq_self rfl rfl
  cases hobject : entry.isObject with
  | false =>
    have hlaid : (applyBreakpoint table breakpoint entry).isObject = false := by
      rw [isObject_applyBreakpoint, hobject]
    have hvalue : valueAt table breakpoint entry = entry := by
      cases entry with
      | object => cases hobject
      | _ => rfl
    rw [ofEntry_of_not_object hlaid, hvalue, ofEntry_of_not_object hobject]
    simp [insideAt, hkey]
  | true =>
    obtain ⟨own, rfl⟩ : ∃ own, entry = .object own := by
      cases entry with
      | object own => exact ⟨own, rfl⟩
      | _ => cases hobject
    have hname : insideAt table breakpoint [("name", Json.string key)] =
        [("name", Json.string key)] := by
      simp [insideAt, hkey]
    rw [applyBreakpoint_fields, h own rfl, valueAt, ofEntry, ofEntry]
    nth_rewrite 1 [← hname]
    exact Fields.setAll_mapValues _ _

end Section

namespace Compiler

variable {c : Compiler} {recur recur' : Json → Scope → Compilation Node} {s t : Scope}

/-- Values that are no objects have no overrides. -/
theorem stepAt_of_not_object {value : Json} (h : value.isObject = false) (scope : Scope) :
    c.stepAt table breakpoint recur value scope = c.step recur value scope := by
  cases value with
  | object => cases h
  | _ => rfl

theorem stepAt_named (h : Section.name? fields = some name) (scope : Scope) :
    c.stepAt table breakpoint recur (.object fields) scope =
      c.compileSection recur (Section.selfAt table breakpoint name fields).2
        (Section.selfAt table breakpoint name fields).1 scope := by
  simp only [stepAt, h]

theorem stepAt_entries (h : Section.name? fields = none) (scope : Scope) :
    c.stepAt table breakpoint recur (.object fields) scope =
      (Compilation.forEach (fun entry => c.compileSection recur
        (Section.entryAt table breakpoint entry).2 (Section.entryAt table breakpoint entry).1
        scope) fields).andThen fun nodes => .done (.ofList nodes) := by
  simp only [stepAt, h]
  rfl

/-- An object with a name is taken for a section. -/
theorem carriesOverrides_of_name (h : Section.name? fields = some name) :
    carriesOverrides fields = true := by
  obtain ⟨value, hvalue, -⟩ := Option.bind_eq_some_iff.1 h
  simp [carriesOverrides, hvalue]

/-- A section that the overrides reach gets them before it is compiled. -/
theorem step_applyBreakpoint_named (hname : Section.name? fields = some name)
    (hreaches : ReachesSections table breakpoint fields) (scope : Scope) :
    c.step recur (applyBreakpoint table breakpoint (.object fields)) scope =
      c.compileSection recur
        (insideAt table breakpoint (Section.selfAt table breakpoint name fields).2)
        (Section.selfAt table breakpoint name fields).1 scope := by
  have hnamed : (Section.name? (responsiveProps table breakpoint fields)).isSome := by
    simpa only [ReachesSections, hname] using hreaches
  obtain ⟨own, hown⟩ := Option.isSome_iff_exists.1 hnamed
  have hfields : fieldsAt table breakpoint fields = responsiveProps table breakpoint fields :=
    if_pos (carriesOverrides_of_name hname)
  have hlaid : Section.name? (insideAt table breakpoint
      (responsiveProps table breakpoint fields)) = some own := by
    rw [Section.name?_insideAt, hown]
  have hself : Section.selfAt table breakpoint name fields =
      (own, responsiveProps table breakpoint fields) := by
    simp [Section.selfAt, hown]
  rw [applyBreakpoint_fields, hfields, step_named hlaid, hself]

/-- So do the entries of a map of sections. -/
theorem step_applyBreakpoint_entries (hname : Section.name? fields = none)
    (hreaches : ReachesSections table breakpoint fields) (scope : Scope) :
    c.step recur (applyBreakpoint table breakpoint (.object fields)) scope =
      (Compilation.forEach (fun entry => c.compileSection recur
        (insideAt table breakpoint (Section.entryAt table breakpoint entry).2)
        (Section.entryAt table breakpoint entry).1 scope) fields).andThen
          fun nodes => .done (.ofList nodes) := by
  obtain ⟨hfields, hentries⟩ : fieldsAt table breakpoint fields = fields ∧
      ∀ key own, (key, Json.object own) ∈ fields →
        fieldsAt table breakpoint own = responsiveProps table breakpoint own := by
    simpa only [ReachesSections, hname] using hreaches
  have hlaid : Section.name? (insideAt table breakpoint fields) = none := by
    rw [Section.name?_insideAt, hname]
  rw [applyBreakpoint_fields, hfields, step_entries hlaid, insideAt, Fields.mapValues,
    Compilation.forEach_map]
  refine congrArg (Compilation.andThen · _) (Compilation.forEach_congr fun entry hentry => ?_)
  rw [Section.ofEntry_applyBreakpoint fun own heq => hentries entry.1 own (heq ▸ hentry),
    Section.name?_insideAt]
  rfl

/-- Two ways to compile what stands inside agree, if one of them finds the overrides laid and the
other one lays them. -/
def RecurAgrees (c : Compiler) (table : BreakpointTable) (breakpoint : String)
    (recur recur' : Json → Scope → Compilation Node) : Prop :=
  ∀ value s t, c.Marked table breakpoint value → value.Regular → c.SameTexts s t →
    recur (applyBreakpoint table breakpoint value) s = recur' value t

/-- One step compiles alike either way when the steps inside do. -/
theorem RecurAgrees.step (h : c.RecurAgrees table breakpoint recur recur')
    (hhook : c.HookIsRegular) :
    c.RecurAgrees table breakpoint (c.step recur) (c.stepAt table breakpoint recur') := by
  intro value s t hmarked hregular hscope
  cases hmarked with
  | leaf harray hobject =>
    rw [applyBreakpoint_eq_self harray hobject, stepAt_of_not_object hobject]
    cases hfalsy : value.isFalsy with
    | true => rw [step_falsy hfalsy, step_falsy hfalsy]
    | false =>
      rw [step_leaf hfalsy harray hobject, step_leaf hfalsy harray hobject, leaf, leaf, hscope]
  | @array items hitems =>
    rw [applyBreakpoint_array, stepAt_of_not_object rfl, step_array, step_array]
    rw [Compilation.forEach_map]
    refine congrArg (Compilation.andThen · _) (Compilation.forEach_congr fun item hitem => ?_)
    exact h item s t (hitems item hitem) (Json.regular_array_iff.1 hregular item hitem) hscope
  | @object fields hreaches hmutation hinside hdata =>
    have hsections : ∀ found ∈ Section.allAt table breakpoint fields,
        c.compileSection recur (insideAt table breakpoint found.2) found.1 s =
          c.compileSection recur' found.2 found.1 t := by
      intro found hfound
      have hmutated := hhook.mutated (Section.regular_of_mem_allAt hregular hfound) found.1
      refine compileSection_insideAt hmutated.distinct (hmutation found hfound) ?_
        (hdata found hfound) s t
      intro hactive field hfield hcompiles s t hscope
      exact h _ s t (hinside found hfound hactive field hfield hcompiles)
        ((Json.regular_object_iff.1 hmutated).2 field hfield) hscope
    cases hname : Section.name? fields with
    | some name =>
      rw [step_applyBreakpoint_named hname hreaches, stepAt_named hname]
      exact hsections _ (by simp [Section.allAt, hname])
    | none =>
      rw [step_applyBreakpoint_entries hname hreaches, stepAt_entries hname]
      refine congrArg (Compilation.andThen · _) (Compilation.forEach_congr fun entry hentry => ?_)
      refine hsections _ ?_
      simp only [Section.allAt, hname]
      exact List.mem_map_of_mem hentry

/-- Compiling with any budget goes alike either way. -/
theorem recurAgrees_build (hhook : c.HookIsRegular) (budget : Nat) :
    c.RecurAgrees table breakpoint (c.build budget) (c.buildAt table breakpoint budget) := by
  induction budget with
  | zero => exact fun _ _ _ _ _ _ => rfl
  | succ budget ih => exact ih.step hhook

/-- Laying the overrides over a schema and compiling it gives what laying them over each section
right before it is compiled gives, with the same sections visited on the way, if what has a name
or a component is just what the compiler takes for a section.  Without mutations compiling ends,
and gives the same tree. -/
theorem build_applyBreakpoint {schema : Json} (hhook : c.HookIsRegular) (hschema : schema.Regular)
    (hmarked : c.Marked table breakpoint schema) :
    (∀ budget scope, c.build budget (applyBreakpoint table breakpoint schema) scope =
      c.buildAt table breakpoint budget schema scope) ∧
    ((∀ name fields, c.mutate name fields = none) → ∀ budget, schema.depth < budget →
      (c.buildAt table breakpoint budget schema .root).value? =
        some (c.compile (applyBreakpoint table breakpoint schema))) := by
  have hsame : ∀ budget scope, c.build budget (applyBreakpoint table breakpoint schema) scope =
      c.buildAt table breakpoint budget schema scope := fun budget scope =>
    recurAgrees_build hhook budget schema scope scope hmarked hschema fun _ => rfl
  refine ⟨hsame, fun hnone budget hbudget => ?_⟩
  have hdepth := depth_applyBreakpoint table breakpoint schema
  obtain ⟨node, names, hrun⟩ := ends_build hnone (Nat.lt_of_le_of_lt hdepth hbudget) .root
  have hnode := nodeOf_eq hnone (fun _ => rfl) hrun
  rw [← hsame, Compilation.value?, hrun]
  exact congrArg some hnode.symm

/-- A compiler without anything of its own. -/
def bare : Compiler where
  registry := .standard
  props := { name := "root" }

/-- Three breakpoints. -/
def threeSizes : BreakpointTable := ⟨[("xs", 0), ("md", 768), ("xl", 1200)]⟩

/-- A map of sections with one that has a name and an override. -/
def leadMap : List (String × Json) :=
  [("lead", .object [("name", .string "lead"), ("content", .string "one"),
    ("md", .object [("content", .string "two")]), ("xl", .object [("content", .string "three")])])]

/-- A section whose override brings in that map. -/
def leadPage : List (String × Json) :=
  [("name", .string "page"), ("style", .object [("gap", .int 4)]), ("content", .string "narrow"),
    ("md", .object [("content", .object leadMap)])]

/-- The section in the map has a name of its own, and no maps inside. -/
theorem marked_leadMap : bare.Marked threeSizes "md" (.object leadMap) := by
  have hall : Section.allAt threeSizes "md" leadMap =
      [("lead", [("name", .string "lead"), ("content", .string "two")])] := by
    decide +kernel
  refine .object ⟨by decide +kernel, ?_⟩ (fun _ _ => rfl) ?_ ?_
  · intro key own hentry
    cases List.mem_singleton.1 hentry
    exact if_pos (by decide)
  · rw [hall]
    intro found hfound _ field hfield _
    rw [List.mem_singleton.1 hfound] at hfield
    rcases List.mem_pair.1 hfield with rfl | rfl <;> exact .leaf rfl rfl
  · rw [hall]
    intro found hfound _ field hfield _
    rw [List.mem_singleton.1 hfound] at hfield
    rcases List.mem_pair.1 hfield with rfl | rfl <;> exact applyBreakpoint_eq_self rfl rfl

/-- The style is not compiled, and the content is the map. -/
theorem marked_leadPage : bare.Marked threeSizes "md" (.object leadPage) := by
  have hall : Section.allAt threeSizes "md" leadPage =
      [("page", [("name", .string "page"), ("style", .object [("gap", .int 4)]),
        ("content", .object leadMap)])] := by
    decide +kernel
  refine .object ?_ (fun _ _ => rfl) ?_ ?_
  · show (Section.name? _).isSome
    decide +kernel
  · rw [hall]
    intro found hfound _ field hfield hcompiles
    rw [List.mem_singleton.1 hfound] at hfield hcompiles
    rcases List.mem_cons.1 hfield with rfl | hrest
    · exact .leaf rfl rfl
    · rcases List.mem_pair.1 hrest with rfl | rfl
      · exact absurd hcompiles (by decide +kernel)
      · exact marked_leadMap
  · rw [hall]
    intro found hfound _ field hfield hcompiles
    rw [List.mem_singleton.1 hfound] at hfield hcompiles
    rcases List.mem_cons.1 hfield with rfl | hrest
    · exact applyBreakpoint_eq_self rfl rfl
    · rcases List.mem_pair.1 hrest with rfl | rfl
      · have hgap : applyBreakpoint threeSizes "md" (.int 4) = .int 4 :=
          applyBreakpoint_eq_self rfl rfl
        simp [applyBreakpoint_object, fieldsAt, carriesOverrides, hgap]
      · exact absurd hcompiles (by decide +kernel)

/-- The override of the inner section is found in the override of the outer one. -/
theorem build_applyBreakpoint_leadPage :
    bare.HookIsRegular ∧ (Json.object leadPage).Regular ∧
      bare.Marked threeSizes "md" (.object leadPage) ∧
      (bare.compile (applyBreakpoint threeSizes "md" (.object leadPage))).textContent = "two" := by
  have hhook : bare.HookIsRegular := by
    rintro _ _ _ _ ⟨⟩
  have hregular : (Json.object leadPage).Regular := by
    simp [leadPage, leadMap, Json.Regular, Json.RegularFields, Fields.Distinct, Json.int]
  refine ⟨hhook, hregular, marked_leadPage, ?_⟩
  have hcompile :=
    (build_applyBreakpoint hhook hregular marked_leadPage).2 (fun _ _ => rfl) 8 (by decide)
  have htext : ((bare.buildAt threeSizes "md" 8 (.object leadPage) .root).value?.map
      Node.textContent) = some "two" := by
    decide +kernel
  rw [hcompile] at htext
  exact Option.some.inj htext

/-- A map of one section under its key, which has an override. -/
def heroMap : Json :=
  .object [("hero", .object [("content", .string "small"),
    ("md", .object [("content", .string "big")])])]

/-- The override of a section that has its name from its key is not found: laid over the section
right before it is compiled it shows, laid over the schema it does not. -/
theorem exists_unreached_override :
    (bare.compile (applyBreakpoint threeSizes "md" heroMap)).textContent = "small" ∧
      ∃ node, (bare.buildAt threeSizes "md" 8 heroMap .root).value? = some node ∧
        node.textContent = "big" := by
  have hsame : applyBreakpoint threeSizes "md" heroMap = heroMap := by
    have hsmall : applyBreakpoint threeSizes "md" (.string "small") = .string "small" :=
      applyBreakpoint_eq_self rfl rfl
    have hbig : applyBreakpoint threeSizes "md" (.string "big") = .string "big" :=
      applyBreakpoint_eq_self rfl rfl
    simp [heroMap, applyBreakpoint_object, fieldsAt, carriesOverrides, hsmall, hbig]
  have htext : ((bare.buildAt threeSizes "md" 8 heroMap .root).value?.map Node.textContent) =
      some "big" := by
    decide +kernel
  rw [hsame]
  exact ⟨by decide +kernel, Option.map_eq_some_iff.1 htext⟩

end Compiler

end ViewSchema
