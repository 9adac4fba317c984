import ViewSchema.Outline
import ViewSchema.Proofs.Compile.Termination

/-!
# The sections that are compiled and the sections that are walked

A schema is walked section by section without compiling it.  Compiling it visits the same
sections in the same order, but does not go into inactive ones.  The two recursions are
compared by a third one, the names of the sections of an outline that stand inside active
sections only.

Main results:

- Definition `Outline.visitsWithin`: the walk, each visit with the sections around it.
- Theorem `Outline.activeNames_eq`: the names that have no inactive section around them.
- Theorem `Compiler.visited_build`: compiling a value visits those names, whatever its budget.
- Theorem `Compiler.visited_buildContent`: compiling ends and visits those names.
-/

namespace ViewSchema

/-! ## Entries of maps of sections -/

namespace Section

/-- The fields of an entry in a map of sections, as they are written. -/
def written (entry : String × Json) : List (String × Json) :=
  match entry.2 with
  | .object fields => fields
  | value => ofEntry entry.1 value

/-- The fields of an entry are regular if its value is. -/
theorem regular_written {entry : String × Json} (h : entry.2.Regular) :
    (Json.object (written entry)).Regular := by
  obtain ⟨key, value⟩ := entry
  cases value with
  | object fields => exact h
  | _ => exact regular_ofEntry h key

/-- An entry is compiled as it is written, under its key when it has no name of its own. -/
theorem lookup_ofEntry {entry : String × Json} (h : entry.2.Regular) (other : String) :
    (ofEntry entry.1 entry.2).lookup other =
      ((written entry).lookup other).or
        (if other = "name" then some (.string entry.1) else none) := by
  obtain ⟨key, value⟩ := entry
  cases value with
  | object fields =>
    rw [ofEntry, Fields.lookup_setAll h.distinct, Fields.lookup_cons]
    rfl
  | _ =>
    by_cases hname : other = "name"
    · subst hname
      rfl
    · simp [written, hname]

/-- An entry of a map adds a name to its fields and changes no other one. -/
theorem lookup_ofEntry_of_ne {entry : String × Json} (h : entry.2.Regular) {other : String}
    (hother : other ≠ "name") :
    (ofEntry entry.1 entry.2).lookup other = (written entry).lookup other := by
  rw [lookup_ofEntry h, if_neg hother, Option.or_none]

/-- So the name of an entry is that of its own fields, or else its key. -/
theorem name?_ofEntry {entry : String × Json} (h : entry.2.Regular) :
    (name? (ofEntry entry.1 entry.2)).getD entry.1 = (name? (written entry)).getD entry.1 := by
  unfold name?
  rw [lookup_ofEntry h, if_pos rfl]
  cases (written entry).lookup "name" <;> rfl

end Section

/-! ## Walks -/

namespace Outline

variable {path name : String} {fields : List (String × Json)}

mutual

/-- An outline in document order, each visit with the fields of the sections that strictly
enclose it, innermost first. -/
def visitsWithin (around : List (List (String × Json))) :
    Outline → List (Visit × List (List (String × Json)))
  | .text path value => [(.text path value, around)]
  | .section path name fields inside =>
    (.section path name fields, around) :: visitsWithinOf (fields :: around) inside

def visitsWithinOf (around : List (List (String × Json))) :
    List Outline → List (Visit × List (List (String × Json)))
  | [] => []
  | o :: os => visitsWithin around o ++ visitsWithinOf around os

end

mutual

/-- The visits are those of the walk. -/
theorem map_fst_visitsWithin (around : List (List (String × Json))) :
    ∀ outline : Outline, (visitsWithin around outline).map Prod.fst = visits outline
  | .text path value => rfl
  | .section path name fields inside => by
    simp only [visitsWithin, visits, List.map_cons]
    rw [map_fst_visitsWithinOf]

/-- Knowing what is around leaves the visits as they are. -/
theorem map_fst_visitsWithinOf (around : List (List (String × Json))) :
    ∀ outlines : List Outline,
      (visitsWithinOf around outlines).map Prod.fst = visitsOf outlines
  | [] => rfl
  | o :: os => by
    simp only [visitsWithinOf, visitsOf, List.map_append]
    rw [map_fst_visitsWithin, map_fst_visitsWithinOf]

end

/-- The name of a visited section. -/
def Visit.name? : Visit → Option String
  | .text _ _ => none
  | .section _ name _ => some name

/-- The fields of a visited section. -/
def Visit.fields? : Visit → Option (List (String × Json))
  | .text _ _ => none
  | .section _ _ fields => some fields

/-- A text has no name. -/
@[simp] theorem Visit.name?_text (path : String) (value : Json) :
    (Visit.text path value).name? = none := rfl

/-- A section has its name. -/
@[simp] theorem Visit.name?_section (path name : String) (fields : List (String × Json)) :
    (Visit.section path name fields).name? = some name := rfl

/-- The names of the visited sections that no inactive section strictly encloses. -/
def namesOutsideInactive (walk : List (Visit × List (List (String × Json)))) : List String :=
  (walk.filter fun visit => visit.2.all fun fields => !Section.isInactive fields).filterMap
    fun visit => visit.1.name?

mutual

/-- The names of the sections of an outline, without those inside inactive sections. -/
def activeNames : Outline → List String
  | .text _ _ => []
  | .section _ name fields inside =>
    name :: if Section.isInactive fields then [] else activeNamesOf inside

def activeNamesOf : List Outline → List String
  | [] => []
  | o :: os => activeNames o ++ activeNamesOf os

end

/-- Nothing has no names. -/
@[simp] theorem activeNamesOf_nil : activeNamesOf [] = [] := rfl

/-- Names of two lists of outlines stand one behind the other. -/
@[simp] theorem activeNamesOf_append (xs ys : List Outline) :
    activeNamesOf (xs ++ ys) = activeNamesOf xs ++ activeNamesOf ys := by
  induction xs with
  | nil => rfl
  | cons x xs ih => simp [activeNamesOf, ih]

/-- Names of mapped outlines stand one behind the other. -/
theorem activeNamesOf_map {α : Type} (f : α → Outline) (xs : List α) :
    activeNamesOf (xs.map f) = xs.flatMap fun x => activeNames (f x) := by
  induction xs with
  | nil => rfl
  | cons x xs ih => simp [activeNamesOf, ih]

/-- Names of lists of outlines stand one behind the other. -/
theorem activeNamesOf_flatMap {α : Type} (f : α → List Outline) (xs : List α) :
    activeNamesOf (xs.flatMap f) = xs.flatMap fun x => activeNamesOf (f x) := by
  induction xs with
  | nil => rfl
  | cons x xs ih => simp [ih]

/-- Visits of two lists of outlines stand one behind the other. -/
theorem visitsOf_append (xs ys : List Outline) :
    visitsOf (xs ++ ys) = visitsOf xs ++ visitsOf ys := by
  induction xs with
  | nil => rfl
  | cons x xs ih => simp [visitsOf, ih]

/-- What is visited in a part is visited in the whole. -/
theorem mem_visitsOf_flatMap {α : Type} {f : α → List Outline} {x : α} {xs : List α}
    {visit : Visit} (hx : x ∈ xs) (h : visit ∈ visitsOf (f x)) :
    visit ∈ visitsOf (xs.flatMap f) := by
  obtain ⟨before, after, rfl⟩ := List.append_of_mem hx
  simp [visitsOf_append, h]

mutual

/-- The names with no inactive section around them are found by not going into inactive
sections. -/
theorem activeNames_eq (around : List (List (String × Json))) : ∀ outline : Outline,
    namesOutsideInactive (visitsWithin around outline) =
      if around.all fun fields => !Section.isInactive fields then activeNames outline else []
  | .text path value => by
    simp only [namesOutsideInactive, visitsWithin, activeNames]
    split <;> simp_all
  | .section path name fields inside => by
    have hinside := activeNamesOf_eq (fields :: around) inside
    rw [List.all_cons] at hinside
    unfold namesOutsideInactive at hinside ⊢
    rw [visitsWithin, activeNames, List.filter_cons]
    by_cases haround : (around.all fun fields => !Section.isInactive fields) = true
    · simp only [haround, if_true, List.filterMap_cons, Visit.name?_section, hinside]
      cases Section.isInactive fields <;> simp
    · simp [haround, hinside]

/-- The names of active sections are those of the visits that nothing inactive is around. -/
theorem activeNamesOf_eq (around : List (List (String × Json))) : ∀ outlines : List Outline,
    namesOutsideInactive (visitsWithinOf around outlines) =
      if around.all fun fields => !Section.isInactive fields then activeNamesOf outlines else []
  | [] => by simp [namesOutsideInactive, visitsWithinOf]
  | o :: os => by
    have hfirst := activeNames_eq around o
    have hrest := activeNamesOf_eq around os
    unfold namesOutsideInactive at hfirst hrest ⊢
    rw [visitsWithinOf, activeNamesOf, List.filter_append, List.filterMap_append, hfirst, hrest]
    split <;> simp

end

/-! ## Outlines of members -/

/-- Falsy values have no outline. -/
theorem ofValue_falsy {value : Json} (h : value.isFalsy = true) (path : String) :
    ofValue path value = [] := by
  cases value <;> simp_all [Json.isFalsy, ofValue]

/-- Any other leaf is a text. -/
theorem ofValue_leaf {value : Json} (h : value.isFalsy = false) (harray : value.isArray = false)
    (hobject : value.isObject = false) (path : String) :
    ofValue path value = [.text path value] := by
  cases value <;> simp_all [Json.isFalsy, Json.isArray, Json.isObject, ofValue]

/-- The outline of a nested field is found where the field is. -/
theorem lookup_ofFields (path : String) (fields : List (String × Json)) (name : String) :
    (ofFields path fields).lookup name =
      (fields.lookup name).map fun value => ofValue (join path name) value := by
  induction fields with
  | nil => simp [ofFields]
  | cons field rest ih =>
    obtain ⟨first, value⟩ := field
    rw [ofFields, Fields.lookup_cons, Fields.lookup_cons, ih]
    split
    · rename_i hname
      simp only at hname
      simp [hname]
    · rfl

/-- The outline of one field of a section, if it is there. -/
def ofField (path : String) (fields : List (String × Json)) (name : String) : List Outline :=
  ((fields.lookup name).map fun value => ofValue (join path name) value).getD []

/-- What stands inside a section, field by field. -/
theorem pick_ofFields (path : String) (fields : List (String × Json)) :
    pick (ofFields path fields) = nestedFields.flatMap (ofField path fields) := by
  unfold pick ofField
  simp only [lookup_ofFields]

/-- The outline of an entry in a map of sections. -/
def ofEntry (path : String) (entry : String × Json) : Outline :=
  let place := join path entry.1
  match entry.2 with
  | .object fields => .section place ((Section.name? fields).getD entry.1) fields
      (nestedFields.flatMap (ofField place fields))
  | value => .section place entry.1 (Section.ofEntry entry.1 value)
      (ofValue (join place "content") value)

/-- A map of sections is outlined entry by entry. -/
theorem ofEntries_eq (path : String) (fields : List (String × Json)) :
    ofEntries path fields = fields.map (ofEntry path) := by
  induction fields with
  | nil => rfl
  | cons entry rest ih =>
    obtain ⟨key, value⟩ := entry
    cases value <;> simp [ofEntries, ofEntry, pick_ofFields, ih]

/-- An entry is outlined as the section it is written as. -/
theorem ofEntry_eq (path : String) (entry : String × Json) :
    ofEntry path entry = .section (join path entry.1)
      ((Section.name? (Section.written entry)).getD entry.1) (Section.written entry)
      (nestedFields.flatMap (ofField (join path entry.1) (Section.written entry))) := by
  obtain ⟨key, value⟩ := entry
  cases value with
  | object fields => rfl
  | _ =>
    simp [ofEntry, Section.written, nestedFields, Section.renderedFields, ofField,
      Section.ofEntry, Fields.lookup_cons, Section.name?, Section.joinedName?]

end Outline

/-! ## Visits of the compiler -/

namespace Compilation

variable {α β : Type}

/-- Compiling a list visits what compiling its items visits, in their order. -/
theorem visited_forEach {f : α → Compilation β} {visits : α → List String} {xs : List α}
    {ys : List β} {names : List String} (h : (forEach f xs).run? = some (ys, names))
    (hf : ∀ x ∈ xs, ∀ y visited, (f x).run? = some (y, visited) → visited = visits x) :
    names = xs.flatMap visits := by
  induction xs generalizing ys names with
  | nil =>
    cases h
    rfl
  | cons x xs ih =>
    rw [forEach, run?_andThen_eq_some] at h
    obtain ⟨y, first, _, hy, htail, rfl⟩ := h
    rw [run?_andThen_eq_some] at htail
    obtain ⟨zs, rest, _, hzs, hdone, rfl⟩ := htail
    cases hdone
    have hfirst := hf x List.mem_cons_self y first hy
    have hrest := ih hzs fun x' hx' => hf x' (List.mem_cons_of_mem _ hx')
    rw [hfirst, hrest, List.flatMap_cons, List.append_nil]

end Compilation

/-- Visits of several present fields are visits of the names that have a field. -/
theorem Section.flatMap_present {α : Type} (fields : List (String × Json)) (names : List String)
    (f : String → Json → List α) :
    (present fields names).flatMap (fun field => f field.1 field.2) =
      names.flatMap fun name => ((fields.lookup name).map (f name)).getD [] := by
  induction names with
  | nil => rfl
  | cons name rest ih =>
    unfold present at ih ⊢
    cases hfield : fields.lookup name with
    | none => simp [hfield, ih]
    | some value => simp [hfield, ih]

namespace Compiler

open Outline

variable {c : Compiler} {recur : Json → Scope → Compilation Node} {fields : List (String × Json)}
  {path name : String}

/-- A section whose component has no slots and compiles its content. -/
def CompilesContent (c : Compiler) (fields : List (String × Json)) : Prop :=
  (c.descriptorOf fields).slots = [] ∧ (c.descriptorOf fields).keepsRawContent = false

/-- Every section that walking some outlines comes to compiles its content. -/
def CompilesAll (c : Compiler) (outlines : List Outline) : Prop :=
  ∀ visit ∈ visitsOf outlines, ∀ fields ∈ visit.fields?, c.CompilesContent fields

instance (fields : List (String × Json)) : Decidable (c.CompilesContent fields) :=
  inferInstanceAs (Decidable (_ ∧ _))

instance (outlines : List Outline) : Decidable (c.CompilesAll outlines) :=
  inferInstanceAs (Decidable (∀ visit ∈ visitsOf outlines, ∀ fields ∈ visit.fields?, _))

/-- What is compiled of a whole is compiled of both parts. -/
theorem CompilesAll.append {xs ys : List Outline} (h : c.CompilesAll (xs ++ ys)) :
    c.CompilesAll xs ∧ c.CompilesAll ys := by
  unfold CompilesAll at h ⊢
  rw [visitsOf_append] at h
  exact List.forall_mem_append.1 h

/-- What stands inside one of several outlines stands inside them. -/
theorem CompilesAll.of_mem {α : Type} {f : α → List Outline} {xs : List α}
    (h : c.CompilesAll (xs.flatMap f)) {x : α} (hx : x ∈ xs) : c.CompilesAll (f x) :=
  fun visit hvisit => h visit (mem_visitsOf_flatMap hx hvisit)

/-- A section and what stands inside it. -/
theorem CompilesAll.section {inside : List Outline}
    (h : c.CompilesAll [.section path name fields inside]) :
    c.CompilesContent fields ∧ c.CompilesAll inside := by
  have hvisits : visitsOf [.section path name fields inside] =
      .section path name fields :: visitsOf inside := by
    simp [visitsOf, visits]
  unfold CompilesAll at h
  rw [hvisits] at h
  exact ⟨h _ List.mem_cons_self fields rfl, fun visit hvisit => h visit (.tail _ hvisit)⟩

/-- What compiles the insides of a value visits the sections that walking them comes to, but
for those inside inactive ones. -/
def RecurVisits (c : Compiler) (recur : Json → Scope → Compilation Node) : Prop :=
  ∀ value scope path node names, value.Regular → c.CompilesAll (ofValue path value) →
    (recur value scope).run? = some (node, names) → names = activeNamesOf (ofValue path value)

/-- The visits of one field of a section. -/
theorem RecurVisits.field (hrecur : c.RecurVisits recur) {value : Json} {scope : Scope}
    {node : Node} {names : List String} (hvalue : value.Regular)
    (hall : c.CompilesAll (nestedFields.flatMap (ofField path fields)))
    (hname : name ∈ nestedFields) (hfield : fields.lookup name = some value)
    (h : (recur value scope).run? = some (node, names)) :
    names = activeNamesOf (ofValue (join path name) value) := by
  have hinside := hall.of_mem hname
  rw [ofField, hfield] at hinside
  exact hrecur value scope _ node names hvalue hinside h

/-- The parts of a section visit what stands inside it, field by field.  The section may have
been given a name of its own for this. -/
theorem RecurVisits.parts (hrecur : c.RecurVisits recur) {own : List (String × Json)}
    (hfields : (Json.object fields).Regular)
    (hown : ∀ other, other ≠ "name" → own.lookup other = fields.lookup other)
    (hcompiles : c.CompilesContent fields)
    (hall : c.CompilesAll (nestedFields.flatMap (ofField path fields))) {inner : Scope}
    (parts : CompiledParts c recur own inner) :
    parts.slotNames ++ parts.labelNames ++ parts.childNames =
      activeNamesOf (nestedFields.flatMap (ofField path fields)) := by
  have hdescriptor : c.descriptorOf own = c.descriptorOf fields := by
    simp [descriptorOf, Fields.string?, hown]
  have hslots : parts.slotNames = [] := by
    have hrun := parts.slots_eq
    rw [hdescriptor, hcompiles.1] at hrun
    exact (congrArg Prod.snd (Option.some.inj hrun)).symm
  have hlabels : parts.labelNames = Section.renderedFields.flatMap fun label =>
      activeNamesOf (ofField path fields label) := by
    have hvisited : parts.labelNames = (Section.present own Section.renderedFields).flatMap
        fun field => activeNamesOf (ofValue (join path field.1) field.2) := by
      refine Compilation.visited_forEach parts.labels_eq ?_
      intro field hfield labelled visited hrun
      obtain ⟨label, hlabel, hpresent⟩ := List.mem_filterMap.1 hfield
      obtain ⟨value, hvalue, rfl⟩ := Option.map_eq_some_iff.1 hpresent
      rw [hown label (ne_of_mem_of_not_mem hlabel (by decide))] at hvalue
      obtain ⟨node, names, _, hnode, hdone, rfl⟩ := Compilation.run?_andThen_eq_some.1 hrun
      cases hdone
      rw [List.append_nil]
      exact hrecur.field (hfields.lookup hvalue) hall (List.mem_append_left _ hlabel) hvalue hnode
    rw [hvisited, Section.flatMap_present own Section.renderedFields fun label value =>
      activeNamesOf (ofValue (join path label) value)]
    apply List.flatMap_congr
    intro label hlabel
    rw [hown label (ne_of_mem_of_not_mem hlabel (by decide)), ofField]
    cases fields.lookup label <;> rfl
  have hchildren : parts.childNames = activeNamesOf (ofField path fields "content") := by
    have hrun := parts.children_eq
    rw [hdescriptor, hcompiles.2, if_neg Bool.false_ne_true] at hrun
    rcases sectionChildren_cases hrun with ⟨hnone, hnames, -⟩ | ⟨content, node, hsome, hnode, -⟩
    · rw [hown "content" (by decide)] at hnone
      simp [ofField, hnone, hnames]
    · rw [hown "content" (by decide)] at hsome
      rw [hrecur.field (hfields.lookup hsome) hall (by decide) hsome hnode]
      simp [ofField, hsome]
  rw [hslots, hlabels, hchildren, activeNamesOf_flatMap]
  simp [nestedFields]

/-- Compiling a section visits it, and then what stands inside unless it is inactive. -/
theorem RecurVisits.compileSection (hrecur : c.RecurVisits recur)
    (hhook : ∀ name fields, c.mutate name fields = none) {own : List (String × Json)}
    (hfields : (Json.object fields).Regular)
    (hown : ∀ other, other ≠ "name" → own.lookup other = fields.lookup other)
    (hcompiles : c.CompilesContent fields)
    (hall : c.CompilesAll (nestedFields.flatMap (ofField path fields))) {scope : Scope}
    {node : Node} {names : List String}
    (h : (c.compileSection recur own name scope).run? = some (node, names)) :
    names = activeNames
      (.section path name fields (nestedFields.flatMap (ofField path fields))) := by
  have hmutated := mutated_eq_self hhook name own
  have hinactive : Section.isInactive own = Section.isInactive fields := by
    simp [Section.isInactive, hown]
  rw [activeNames]
  rcases compileSection_cases h with ⟨hactive, -, rfl⟩ | ⟨hactive, parts, -, rfl⟩
  · rw [hmutated, hinactive] at hactive
    rw [if_pos hactive]
  · rw [hmutated, hinactive] at hactive
    have hread : ∀ other, other ≠ "name" →
        (c.mutated name own).lookup other = fields.lookup other := by
      rwa [hmutated]
    rw [if_neg (by simp [hactive]), hrecur.parts hfields hread hcompiles hall parts]

/-- Compiling the entries of a map visits what their outlines list. -/
theorem RecurVisits.entries (hrecur : c.RecurVisits recur)
    (hhook : ∀ name fields, c.mutate name fields = none)
    (hfields : ∀ entry ∈ fields, entry.2.Regular)
    (hall : c.CompilesAll (fields.map (ofEntry path))) {scope : Scope} {nodes : List Node}
    {names : List String}
    (h : (Compilation.forEach (fun entry => c.compileSection recur
      (Section.ofEntry entry.1 entry.2)
      ((Section.name? (Section.ofEntry entry.1 entry.2)).getD entry.1) scope) fields).run? =
        some (nodes, names)) :
    names = activeNamesOf (fields.map (ofEntry path)) := by
  rw [activeNamesOf_map]
  refine Compilation.visited_forEach h ?_
  intro entry hentry node visited hrun
  have hentry' := hfields entry hentry
  rw [List.map_eq_flatMap] at hall
  have hinside := hall.of_mem hentry
  rw [Section.name?_ofEntry hentry'] at hrun
  rw [ofEntry_eq] at hinside ⊢
  obtain ⟨hcompiles, hinner⟩ := CompilesAll.section hinside
  exact hrecur.compileSection hhook (Section.regular_written hentry')
    (fun _ => Section.lookup_ofEntry_of_ne hentry') hcompiles hinner hrun

/-- Compiling the items of a list visits what their outlines list. -/
theorem RecurVisits.items (hrecur : c.RecurVisits recur) {items : List Json}
    (hitems : ∀ item ∈ items, item.Regular) {index : Nat}
    (hall : c.CompilesAll (ofItems path index items)) {scope : Scope} {nodes : List Node}
    {names : List String}
    (h : (Compilation.forEach (fun item => recur item scope) items).run? = some (nodes, names)) :
    names = activeNamesOf (ofItems path index items) := by
  induction items generalizing index nodes names with
  | nil =>
    cases h
    rfl
  | cons item rest ih =>
    rw [Compilation.forEach, Compilation.run?_andThen_eq_some] at h
    obtain ⟨node, first, _, hnode, htail, rfl⟩ := h
    obtain ⟨_, others, _, hrest, hdone, rfl⟩ := Compilation.run?_andThen_eq_some.1 htail
    cases hdone
    rw [ofItems] at hall ⊢
    obtain ⟨hitem, hothers⟩ := hall.append
    rw [activeNamesOf_append, List.append_nil,
      hrecur item scope _ node first (hitems item List.mem_cons_self) hitem hnode,
      ih (fun x hx => hitems x (List.mem_cons_of_mem _ hx)) hothers hrest]

/-- One step of the compiler visits what its value lists when the steps inside do. -/
theorem RecurVisits.step (hrecur : c.RecurVisits recur)
    (hhook : ∀ name fields, c.mutate name fields = none) : c.RecurVisits (c.step recur) := by
  intro value scope path node names hvalue hall h
  cases hfalsy : value.isFalsy with
  | true =>
    rw [step_falsy hfalsy] at h
    cases h
    rw [ofValue_falsy hfalsy]
    rfl
  | false =>
    cases value with
    | array items =>
      rw [step_array] at h
      obtain ⟨nodes, visited, _, hnodes, hdone, rfl⟩ := Compilation.run?_andThen_eq_some.1 h
      cases hdone
      rw [ofValue] at hall ⊢
      rw [hrecur.items (Json.regular_array_iff.1 hvalue) hall hnodes, List.append_nil]
    | object fields =>
      cases hname : Section.name? fields with
      | some name =>
        rw [step_named hname] at h
        rw [ofValue, hname] at hall ⊢
        simp only [pick_ofFields] at hall ⊢
        obtain ⟨hcompiles, hinside⟩ := CompilesAll.section hall
        rw [hrecur.compileSection hhook hvalue (fun _ _ => rfl) hcompiles hinside h]
        simp [activeNamesOf]
      | none =>
        rw [step_entries hname] at h
        obtain ⟨nodes, visited, _, hnodes, hdone, rfl⟩ := Compilation.run?_andThen_eq_some.1 h
        cases hdone
        rw [ofValue, hname] at hall ⊢
        simp only [ofEntries_eq] at hall ⊢
        rw [hrecur.entries hhook (Json.regular_object_iff.1 hvalue).2 hall hnodes,
          List.append_nil]
    | _ =>
      rw [step_leaf hfalsy rfl rfl] at h
      cases h
      rw [ofValue_leaf hfalsy rfl rfl]
      rfl

/-- Compiling a value visits what its outline lists, whatever the budget. -/
theorem visited_build (hhook : ∀ name fields, c.mutate name fields = none) (budget : Nat) :
    c.RecurVisits (c.build budget) := by
  induction budget with
  | zero =>
    intro value scope path node names _ _ h
    cases h
  | succ budget ih => exact ih.step hhook

/-- Without overrides, compiling a schema ends, and it visits the sections of the walk that no
inactive section strictly encloses, each once and in the order of the walk, provided that the
components of the sections have no slots and compile their content. -/
theorem visited_buildContent (c : Compiler) (hhook : ∀ name fields, c.mutate name fields = none)
    {schema : Json} (hschema : schema.Regular) (hall : c.CompilesAll (ofSchema schema))
    {budget : Nat} (hbudget : schema.depth < budget) (index : Option Nat) :
    (visitsWithinOf [] (ofSchema schema)).map Prod.fst = visitsOf (ofSchema schema) ∧
      ∃ node, (c.buildContent budget (.schema schema) index).run? =
        some (node, namesOutsideInactive (visitsWithinOf [] (ofSchema schema))) := by
  refine ⟨map_fst_visitsWithinOf [] _, ?_⟩
  obtain ⟨node, names, hrun⟩ := ends_build hhook hbudget .root
  have hnames := visited_build hhook budget schema .root "" node names hschema hall hrun
  refine ⟨node, ?_⟩
  rw [activeNamesOf_eq, List.all_nil, if_pos rfl, buildContent, hrun, hnames]
  rfl

/-- A compiler without overrides. -/
def plain : Compiler where
  registry := .standard
  props := { name := "root" }

/-- A page with a labelled list of an inactive section, a section with a list for a name and a
map of an entry with an invalid name, a scalar and a falsy text. -/
def menuPage : Json :=
  .object [("name", .string "menu"), ("content", .array [
      .object [("name", .string "hidden"), ("active", .bool false),
        ("content", .object [("name", .string "unseen")])],
      .string "", .object [("name", .array [.string "main", .string "dish"]),
        ("message", .object [("note", .int 0)])],
      .object [("entry", .object [("name", .int 5)]), ("scalar", .bool true)]]),
    ("label", .object [("name", .string "title")])]

/-- The page is visited section by section, but for what is inside of the inactive one. -/
theorem visited_menuPage :
    (∀ name fields, plain.mutate name fields = none) ∧ menuPage.Regular ∧
      plain.CompilesAll (ofSchema menuPage) ∧ menuPage.depth < 6 ∧
      ∃ node, (plain.buildContent 6 (.schema menuPage) none).run? =
        some (node, ["menu", "title", "hidden", "main-dish", "note", "entry", "scalar"]) := by
  have hschema : menuPage.Regular := by
    simp [menuPage, Json.Regular, Json.RegularFields, Json.RegularItems, Fields.Distinct, Json.int]
  have hall : plain.CompilesAll (ofSchema menuPage) := by decide
  have hdepth : menuPage.depth < 6 := by decide
  have hnames : namesOutsideInactive (visitsWithinOf [] (ofSchema menuPage)) =
      ["menu", "title", "hidden", "main-dish", "note", "entry", "scalar"] := by decide
  obtain ⟨-, node, hrun⟩ := visited_buildContent plain (fun _ _ => rfl) hschema hall hdepth none
  exact ⟨fun _ _ => rfl, hschema, hall, hdepth, node, hnames ▸ hrun⟩

end Compiler

end ViewSchema
