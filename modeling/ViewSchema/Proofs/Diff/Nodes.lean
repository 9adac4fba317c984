import ViewSchema.Proofs.Compile.Budget
import ViewSchema.Proofs.Diff.Essence
import ViewSchema.Proofs.Node.Alike

/-!
# Output depends on the essence only

A schema is compiled to nodes that look like the nodes of its essence.  Sections are read by
name, so the places of their fields do not matter, and neither do the lists and the entries
that sections come in.

Main results:

- Definition `Essence.nodesOfAll`: the nodes of essences in a scope.
- Theorem `Compiler.alike_assemble`: sections that read alike are assembled alike.
- Theorem `Compiler.alike_build`: compiling a value gives nodes like those of its essence.
- Theorem `Compiler.render_compile_eq`: schemas of one essence have the same HTML.
-/

namespace ViewSchema

/-! ## Sections that read alike -/

namespace Compiler

variable {c : Compiler} {own other : List (String × Json)} {name : String}

/-- Two sections whose fields read alike: all but those that are compiled before, and the
content only if the component takes it as it is written. -/
structure ReadsAlike (c : Compiler) (own other : List (String × Json)) : Prop where
  distinct : Fields.Distinct own
  distinct' : Fields.Distinct other
  lookup : ∀ field ∉ Outline.nestedFields, own.lookup field = other.lookup field
  content : (c.descriptorOf own).keepsRawContent = true →
    own.lookup "content" = other.lookup "content"

namespace ReadsAlike

/-- Sections that read alike have the same component. -/
theorem descriptorOf_eq (h : c.ReadsAlike own other) :
    c.descriptorOf own = c.descriptorOf other := by
  simp only [descriptorOf, Fields.string?, h.lookup "component" (by decide)]

/-- Sections that read alike are both active or not. -/
theorem isInactive_eq (h : c.ReadsAlike own other) :
    Section.isInactive own = Section.isInactive other := by
  simp only [Section.isInactive, h.lookup "active" (by decide)]

/-- Sections that read alike are supplied with the same children. -/
theorem suppliedTo_eq (h : c.ReadsAlike own other) : c.suppliedTo own = c.suppliedTo other := by
  have hname : Section.name? own = Section.name? other := by
    rw [Section.name?, Section.name?, h.lookup "name" (by decide)]
  rw [suppliedTo, suppliedTo, receivesChildren, receivesChildren, hname]

/-- Sections that read alike are wrapped in the same way. -/
theorem wrapping_eq (h : c.ReadsAlike own other) (d : Descriptor) :
    c.wrapping d own = c.wrapping d other := by
  simp only [wrapping, Fields.string?, h.lookup "component" (by decide),
    h.lookup "tag" (by decide), h.lookup "wrapper" (by decide)]

/-- Sections that read alike have the same wrapper around the same element. -/
theorem wrapperElement_eq (h : c.ReadsAlike own other) (tag name : String) (inner : Node) :
    c.wrapperElement tag name own inner = c.wrapperElement tag name other inner := by
  simp only [wrapperElement, h.lookup "wrapperClasses" (by decide),
    h.lookup "wrapperStyle" (by decide)]

/-- What is handed on reads alike without exception. -/
theorem lookup_handedOn (h : c.ReadsAlike own other) (field : String) :
    (Section.handedOn own).lookup field = (Section.handedOn other).lookup field := by
  rw [Section.lookup_handedOn h.distinct, Section.lookup_handedOn h.distinct']
  split
  · rfl
  · rename_i hkept
    have hsubset : ∀ field ∈ Outline.nestedFields, field ∈ Section.reservedFields := by decide
    exact h.lookup field fun hnested => hkept (hsubset field hnested)

/-- Sections that read alike hand on the same labels. -/
theorem present_handedOn (h : c.ReadsAlike own other) (names : List String) :
    Section.present (Section.handedOn own) names =
      Section.present (Section.handedOn other) names := by
  simp only [Section.present, h.lookup_handedOn]

/-- Texts inside of the sections look the same. -/
theorem sameTexts (h : c.ReadsAlike own other) (s t : Scope) (name : String) :
    c.SameTexts (s.enter name (Section.handedOn own)) (t.enter name (Section.handedOn other)) := by
  intro value
  simp only [leafText, Scope.enter, Scope.options?, List.head?_cons, Option.map_some]
  exact Formatter.format_congr c.formatter _ fun field _ => h.lookup_handedOn field

end ReadsAlike

/-- Adding the routing props keeps lists of props that read alike. -/
theorem lookup_addAmbient {props props' : List (String × Json)}
    (h : ∀ field, props.lookup field = props'.lookup field) (field : String) :
    (c.addAmbient props).lookup field = (c.addAmbient props').lookup field := by
  unfold addAmbient
  generalize c.ambient = ambient
  induction ambient generalizing props props' with
  | nil => exact h field
  | cons first rest ih =>
    refine ih fun other => ?_
    rw [Fields.lookup_setIfMissing, Fields.lookup_setIfMissing, h]

/-- Sections that read alike have the same props. -/
theorem ReadsAlike.lookup_sectionProps (h : c.ReadsAlike own other) (name field : String) :
    (c.sectionProps (c.descriptorOf own) name own).lookup field =
      (c.sectionProps (c.descriptorOf own) name other).lookup field := by
  have hkept : ∀ field, (Section.without (Section.handedOn own)
      (c.descriptorOf own).slots).lookup field =
        (Section.without (Section.handedOn other) (c.descriptorOf own).slots).lookup field := by
    intro field
    rw [Section.lookup_without (Section.distinct_handedOn h.distinct),
      Section.lookup_without (Section.distinct_handedOn h.distinct'), h.lookup_handedOn]
  refine lookup_addAmbient (fun field => ?_) field
  cases hraw : (c.descriptorOf own).keepsRawContent with
  | false =>
    simp only [Fields.lookup_set, hkept, h.lookup "managerName" (by decide)]
  | true =>
    rw [← h.content hraw]
    cases own.lookup "content" <;>
      simp only [Fields.lookup_set, hkept, h.lookup "managerName" (by decide)]

/-- A wrapper around alike elements. -/
theorem alike_wrapperElement (c : Compiler) (tag name : String) (mutated : List (String × Json))
    {inner inner' : Node} (h : Node.Alike [inner] [inner']) :
    Node.Alike [c.wrapperElement tag name mutated inner]
      [c.wrapperElement tag name mutated inner'] :=
  .tag ((((Element.BareHost.ofHost tag).withKey _).withClasses _).withProp _ _) h

/-- Sections that read alike, with alike parts, are assembled alike. -/
theorem ReadsAlike.alike_assemble (h : c.ReadsAlike own other) (name : String)
    {rendered rendered' : List (String × Node)} (hrendered : Node.AlikeFields rendered rendered')
    {children children' : List Node} (hchildren : Node.Alike children children') :
    Node.Alike [c.assemble (c.descriptorOf own) name own rendered children]
      [c.assemble (c.descriptorOf own) name other rendered' children'] := by
  have hprops := h.lookup_sectionProps name
  have hmarked : ∀ field, (markUnwrapped (c.sectionProps (c.descriptorOf own) name own)).lookup
      field = (markUnwrapped (c.sectionProps (c.descriptorOf own) name other)).lookup field := by
    intro field
    simp only [markUnwrapped, Fields.lookup_set, hprops]
  have helement : ∀ props props' : List (String × Json),
      (∀ field, props.lookup field = props'.lookup field) → Node.Alike
        [.element ⟨some name, .component (c.descriptorOf own), props, Fields.ofList rendered,
          children⟩]
        [.element ⟨some name, .component (c.descriptorOf own), props', Fields.ofList rendered',
          children'⟩] := fun props props' hsame =>
    .component rfl rfl hsame hrendered.ofList.names_eq hrendered.ofList.trees hchildren .nil
  unfold assemble
  dsimp only
  rw [← h.wrapping_eq]
  cases htag : (c.wrapping (c.descriptorOf own) own).tag? with
  | none =>
    refine helement _ _ fun field => ?_
    split
    · exact hmarked field
    · exact hprops field
  | some tag =>
    simp only [Option.isNone_some, Bool.and_false, Bool.false_eq_true, if_false]
    rw [← h.wrapperElement_eq]
    exact c.alike_wrapperElement tag name own (helement _ _ hprops)

end Compiler

/-! ## Nodes of essences -/

namespace Essence

/-- The fields of a section as far as its essence tells them: its own fields, its name, and its
content if the component takes it as it is written. -/
def restored (name : String) (own : List (String × Json)) (raw : Option Json) :
    List (String × Json) :=
  Fields.setIfMissing own "name" (.string name) ++
    (raw.map fun content => ("content", content)).toList

/-- The node of an active section whose labels and content are compiled. -/
def nodeOfSection (c : Compiler) (name : String) (fields : List (String × Json)) (scope : Scope)
    (labels : List (String × Node)) (content : List Node) : Node :=
  let d := c.descriptorOf fields
  let slots := (Section.present (Section.handedOn fields) d.slots).map fun slot =>
    (slot.1, c.nodeOf slot.2 scope)
  let children := if d.keepsRawContent then []
    else content ++ (c.suppliedTo fields).filter fun node => !node.isNothing
  c.assemble d name fields (slots ++ labels) children

mutual

/-- The nodes of an essence in a scope. -/
def nodesOf (c : Compiler) (scope : Scope) : Essence → List Node
  | .text _ value => [c.leaf value scope]
  | .section name own raw labels content =>
    let fields := restored name own raw
    let inner := scope.enter name (Section.handedOn fields)
    if Section.isInactive fields then []
    else [nodeOfSection c name fields inner (nodesOfLabels c inner labels)
      (nodesOfAll c inner content)]

def nodesOfAll (c : Compiler) (scope : Scope) : List Essence → List Node
  | [] => []
  | e :: es => nodesOf c scope e ++ nodesOfAll c scope es

def nodesOfLabels (c : Compiler) (scope : Scope) :
    List (String × List Essence) → List (String × Node)
  | [] => []
  | (name, es) :: labels => (name, .ofList (nodesOfAll c scope es)) :: nodesOfLabels c scope labels

end

variable {c : Compiler} {name : String}

/-- Nodes of two lists of essences stand one behind the other. -/
theorem nodesOfAll_append (scope : Scope) (xs ys : List Essence) :
    nodesOfAll c scope (xs ++ ys) = nodesOfAll c scope xs ++ nodesOfAll c scope ys := by
  induction xs with
  | nil => rfl
  | cons x xs ih => simp [nodesOfAll, ih]

/-- The nodes of a single essence are its own. -/
theorem nodesOfAll_singleton (scope : Scope) (e : Essence) :
    nodesOfAll c scope [e] = nodesOf c scope e := by
  simp [nodesOfAll]

/-- A section is compiled from fields that read like those it is written with, under its name
if these bring none. -/
structure WrittenAs (name : String) (compiled written : List (String × Json)) : Prop where
  regular : (Json.object compiled).Regular
  distinct : Fields.Distinct written
  lookup : ∀ field, compiled.lookup field =
    (written.lookup field).or (if field = "name" then some (.string name) else none)

/-- A section compiled in its place. -/
theorem writtenAs_self {fields : List (String × Json)} (h : (Json.object fields).Regular)
    (hname : Section.name? fields = some name) : WrittenAs name fields fields where
  regular := h
  distinct := h.distinct
  lookup field := by
    by_cases heq : field = "name"
    · subst heq
      cases hfind : fields.lookup "name" with
      | none => simp [Section.name?, hfind] at hname
      | some value => rfl
    · simp [heq]

/-- An entry of a map of sections. -/
theorem writtenAs_ofEntry {entry : String × Json} (h : entry.2.Regular) :
    WrittenAs ((Section.name? (Section.written entry)).getD entry.1)
      (Section.ofEntry entry.1 entry.2) (Section.written entry) where
  regular := Section.regular_ofEntry h entry.1
  distinct := (Section.regular_written h).distinct
  lookup field := by
    rw [Section.lookup_ofEntry h]
    by_cases heq : field = "name"
    · subst heq
      cases hfind : (Section.written entry).lookup "name" with
      | none => simp [Section.name?, hfind]
      | some value => rfl
    · simp [heq]

variable {compiled written : List (String × Json)}

/-- A section that is compiled has the fields it is written with, but for its name. -/
theorem WrittenAs.lookup_of_ne (h : WrittenAs name compiled written) {field : String}
    (hfield : field ≠ "name") : compiled.lookup field = written.lookup field := by
  rw [h.lookup, if_neg hfield, Option.or_none]

/-- The labels are compiled as they are written. -/
theorem WrittenAs.present_labels (h : WrittenAs name compiled written) :
    Section.present compiled Section.renderedFields =
      Section.present written Section.renderedFields := by
  have hnames : ∀ label ∈ Section.renderedFields, label ≠ "name" := by decide
  refine List.filterMap_congr fun label hlabel => ?_
  rw [h.lookup_of_ne (hnames label hlabel)]

/-- So is the content. -/
theorem WrittenAs.ofField_content (h : WrittenAs name compiled written) :
    ofField c compiled "content" = ofField c written "content" := by
  rw [ofField, ofField, h.lookup_of_ne (by decide)]

/-- What an essence restores, name by name. -/
theorem lookup_restored (name : String) (own : List (String × Json)) (raw : Option Json)
    (field : String) :
    (restored name own raw).lookup field =
      ((own.lookup field).or (if field = "name" then some (.string name) else none)).or
        (if field = "content" then raw else none) := by
  rw [restored, List.lookup_append, Fields.lookup_setIfMissing]
  cases raw with
  | none => simp
  | some content =>
    simp only [Option.map_some, Option.toList_some, Fields.lookup_cons, List.lookup_nil]

/-- The own fields of a section are those without a nested schema. -/
theorem lookup_ownFields (fields : List (String × Json)) (field : String) :
    (ownFields fields).lookup field =
      if field ∈ Outline.nestedFields then none else fields.lookup field := by
  have hkept := Fields.lookup_filter fields (fun name => !Outline.nestedFields.contains name) field
  rw [ownFields, hkept]
  by_cases hnested : field ∈ Outline.nestedFields <;> simp [hnested]

/-- Restored fields have distinct names. -/
theorem distinct_restored {fields : List (String × Json)} (h : Fields.Distinct fields)
    (name : String) (raw : Option Json) :
    Fields.Distinct (restored name (ownFields fields) raw) := by
  have hown : Fields.Distinct (ownFields fields) := h.sublist (List.filter_sublist.map Prod.fst)
  have hnamed := hown.setIfMissing "name" (.string name)
  cases raw with
  | none => simpa [restored] using hnamed
  | some content =>
    have hfresh : "content" ∉
        Fields.names (Fields.setIfMissing (ownFields fields) "name" (.string name)) := by
      rw [← Fields.lookup_eq_none_iff, Fields.lookup_setIfMissing, lookup_ownFields,
        if_pos (by decide), if_neg (by decide)]
      rfl
    have hset := hnamed.set "content" content
    rwa [Fields.set_of_not_mem hfresh] at hset

/-- What the essence of a section restores reads like the section. -/
theorem WrittenAs.readsAlike (h : WrittenAs name compiled written) :
    c.ReadsAlike compiled (restored name (ownFields written) (rawContent? c written)) where
  distinct := h.regular.distinct
  distinct' := distinct_restored h.distinct name _
  lookup field hfield := by
    have hcontent : field ≠ "content" := by
      rintro rfl
      exact hfield (by decide)
    rw [lookup_restored, lookup_ownFields, if_neg hfield, if_neg hcontent, h.lookup, Option.or_none]
  content hraw := by
    have hdescriptor : c.descriptorOf compiled = c.descriptorOf written := by
      simp [Compiler.descriptorOf, Fields.string?, h.lookup]
    rw [hdescriptor] at hraw
    have hnested : "content" ∈ Outline.nestedFields := by decide
    have hname : ¬"content" = "name" := by decide
    rw [lookup_restored, lookup_ownFields, h.lookup, if_pos hnested, if_neg hname, if_pos rfl,
      rawContent?, if_pos hraw, Option.or_none]
    rfl

end Essence

/-! ## Compiling -/

namespace Compiler

open Essence (nodesOfAll nodesOfLabels)

variable {c : Compiler} {recur : Json → Scope → Compilation Node} {name : String}
  {compiled written : List (String × Json)}

/-- What compiles the insides of a value gives nodes like those of its essence, and each value
its own node. -/
structure RecurAlike (c : Compiler) (recur : Json → Scope → Compilation Node) : Prop where
  alike : ∀ {value s t node names} (path : Option LeafPath), value.Regular → c.SameTexts s t →
    (recur value s).run? = some (node, names) →
      Node.Alike [node] (nodesOfAll c t (Essence.ofValue c path value))
  own : ∀ {value s t node names}, c.SameTexts s t →
    (recur value s).run? = some (node, names) → c.nodeOf value t = node

namespace RecurAlike

/-- The slots of a section. -/
theorem alike_slots (h : c.RecurAlike recur) {s t : Scope} (hscope : c.SameTexts s t)
    {fields : List (String × Json)} {slots : List (String × Node)} {names : List String}
    (hrun : (buildNamed recur s fields).run? = some (slots, names)) :
    Node.AlikeFields slots (fields.map fun slot => (slot.1, c.nodeOf slot.2 t)) := by
  have heach := Compilation.forall₂_of_forEach hrun
  clear hrun
  induction heach with
  | nil => exact .nil
  | cons hfirst _ ih =>
    obtain ⟨visited, hvisited⟩ := hfirst
    obtain ⟨node, _, _, hnode, hdone, -⟩ := Compilation.run?_andThen_eq_some.1 hvisited
    cases hdone
    rw [List.map_cons, h.own hscope hnode]
    exact .cons (.refl _) ih

/-- The labels of a section. -/
theorem alike_labels (h : c.RecurAlike recur) {s t : Scope} (hscope : c.SameTexts s t)
    {fields : List (String × Json)} (hfields : ∀ field ∈ fields, field.2.Regular)
    {labels : List (String × Node)} {names : List String}
    (hrun : (buildNamed recur s fields).run? = some (labels, names)) :
    Node.AlikeFields labels (nodesOfLabels c t (fields.map fun label =>
      (label.1, Essence.ofValue c (LeafPath.ofField? label.1) label.2))) := by
  have heach := (List.forall₂_and_left _ _).2 ⟨hfields, Compilation.forall₂_of_forEach hrun⟩
  clear hrun hfields
  induction heach with
  | nil => exact .nil
  | @cons field _ _ _ hfirst _ ih =>
    obtain ⟨hregular, visited, hvisited⟩ := hfirst
    obtain ⟨node, _, _, hnode, hdone, -⟩ := Compilation.run?_andThen_eq_some.1 hvisited
    cases hdone
    have hinside := h.alike (LeafPath.ofField? field.1) hregular hscope hnode
    exact .cons (.fragmentRight (by simpa using hinside)) ih

/-- The children of a section that compiles its content. -/
theorem alike_sectionChildren (h : c.RecurAlike recur)
    {s t : Scope} (hscope : c.SameTexts s t) (hregular : (Json.object compiled).Regular)
    {children : List Node} {names : List String}
    (hrun : (c.sectionChildren recur compiled s).run? = some (children, names)) :
    Node.Alike children (nodesOfAll c t (Essence.ofField c compiled "content") ++
      (c.suppliedTo compiled).filter fun node => !node.isNothing) := by
  unfold Essence.ofField
  rcases sectionChildren_cases hrun with ⟨hnone, -, rfl⟩ | ⟨content, node, hsome, hnode, rfl⟩
  · rw [hnone]
    exact .refl _
  · have hinside := h.alike (LeafPath.ofField? "content") (hregular.lookup hsome) hscope hnode
    rw [← List.singleton_append, List.filter_append, hsome]
    exact hinside.filter_singleton.append (.refl _)

/-- A section is compiled to a node like that of its essence. -/
theorem compileSection (h : c.RecurAlike recur)
    (hhook : ∀ name fields, c.mutate name fields = none)
    (hwritten : Essence.WrittenAs name compiled written) {s t : Scope} {node : Node}
    {names : List String}
    (hrun : (c.compileSection recur compiled name s).run? = some (node, names)) :
    Node.Alike [node] (nodesOfAll c t [Essence.ofNamed c name written]) := by
  have hreads := hwritten.readsAlike (c := c)
  have hscope := hreads.sameTexts s t name
  rw [Essence.nodesOfAll_singleton, Essence.ofNamed, Essence.nodesOf, ← hreads.isInactive_eq]
  have hcases := compileSection_cases hrun
  rw [mutated_eq_self hhook name compiled] at hcases
  rcases hcases with ⟨hinactive, rfl, -⟩ | ⟨hactive, parts, rfl, -⟩
  · rw [if_pos hinactive]
    exact .nothingLeft .nil
  · rw [if_neg (by simp [hactive]), Essence.nodeOfSection, ← hreads.descriptorOf_eq,
      ← hreads.present_handedOn, ← hreads.suppliedTo_eq]
    have hslots := h.alike_slots hscope parts.slots_eq
    have hlabels := h.alike_labels hscope (fun field hfield =>
      (Json.regular_object_iff.1 hwritten.regular).2 _ (Section.mem_of_mem_present hfield))
      parts.labels_eq
    rw [hwritten.present_labels] at hlabels
    refine hreads.alike_assemble name (hslots.append hlabels) ?_
    have hchildren := parts.children_eq
    cases hraw : (c.descriptorOf compiled).keepsRawContent with
    | true =>
      rw [if_pos hraw] at hchildren
      have hnone : parts.children = [] := (congrArg Prod.fst (Option.some.inj hchildren)).symm
      rw [hnone]
      exact .nil
    | false =>
      rw [if_neg (by simp [hraw])] at hchildren
      have hinside := h.alike_sectionChildren hscope hwritten.regular hchildren
      rwa [hwritten.ofField_content] at hinside

/-- The items of a list. -/
theorem alike_items (h : c.RecurAlike recur) {s t : Scope} (hscope : c.SameTexts s t)
    (path : Option LeafPath) (index : Nat) {items : List Json}
    (hregular : ∀ item ∈ items, item.Regular) {nodes : List Node} {names : List String}
    (hrun : (Compilation.forEach (fun item => recur item s) items).run? = some (nodes, names)) :
    Node.Alike nodes (nodesOfAll c t (Essence.ofItems c path index items)) := by
  have heach := (List.forall₂_and_left _ _).2 ⟨hregular, Compilation.forall₂_of_forEach hrun⟩
  clear hrun hregular
  induction heach generalizing index with
  | nil => exact .nil
  | cons hfirst _ ih =>
    obtain ⟨hregular, visited, hnode⟩ := hfirst
    have hinside := h.alike (path.map (·.item index)) hregular hscope hnode
    rw [Essence.ofItems, Essence.nodesOfAll_append]
    exact hinside.append (ih (index + 1))

/-- The entries of a map of sections. -/
theorem alike_entries (h : c.RecurAlike recur)
    (hhook : ∀ name fields, c.mutate name fields = none) {s t : Scope}
    {fields : List (String × Json)} (hregular : ∀ entry ∈ fields, entry.2.Regular)
    {nodes : List Node} {names : List String}
    (hrun : (Compilation.forEach (fun entry => c.compileSection recur
      (Section.ofEntry entry.1 entry.2)
      ((Section.name? (Section.ofEntry entry.1 entry.2)).getD entry.1) s) fields).run? =
        some (nodes, names)) :
    Node.Alike nodes (nodesOfAll c t (fields.map (Essence.ofEntry c))) := by
  have heach := (List.forall₂_and_left _ _).2 ⟨hregular, Compilation.forall₂_of_forEach hrun⟩
  clear hrun hregular
  induction heach with
  | nil => exact .nil
  | @cons entry _ rest _ hfirst _ ih =>
    obtain ⟨hentry, visited, hnode⟩ := hfirst
    rw [Section.name?_ofEntry hentry] at hnode
    have hinside := h.compileSection hhook (Essence.writtenAs_ofEntry hentry) (t := t) hnode
    rw [Essence.nodesOfAll_singleton] at hinside
    exact hinside.append ih

/-- A step gives nodes like those of the essence when the steps inside do. -/
theorem step (h : c.RecurAlike recur) (hhook : ∀ name fields, c.mutate name fields = none)
    (path : Option LeafPath) {value : Json} (hregular : value.Regular) {s t : Scope}
    (hscope : c.SameTexts s t) {node : Node} {names : List String}
    (hrun : (c.step recur value s).run? = some (node, names)) :
    Node.Alike [node] (nodesOfAll c t (Essence.ofValue c path value)) := by
  cases hfalsy : value.isFalsy with
  | true =>
    rw [step_falsy hfalsy] at hrun
    cases hrun
    rw [Essence.ofValue_falsy hfalsy]
    exact .nothingLeft .nil
  | false =>
    cases value with
    | array items =>
      rw [step_array, Compilation.run?_andThen_eq_some] at hrun
      obtain ⟨nodes, _, _, hitems, hdone, -⟩ := hrun
      cases hdone
      rw [Essence.ofValue]
      exact (h.alike_items hscope path 0 (Json.regular_array_iff.1 hregular) hitems).fragment
    | object fields =>
      cases hname : Section.name? fields with
      | some name =>
        rw [step_named hname] at hrun
        rw [Essence.ofValue_named hname]
        exact h.compileSection hhook (Essence.writtenAs_self hregular hname) hrun
      | none =>
        rw [step_entries hname, Compilation.run?_andThen_eq_some] at hrun
        obtain ⟨nodes, _, _, hentries, hdone, -⟩ := hrun
        cases hdone
        rw [Essence.ofValue_entries hname]
        exact (h.alike_entries hhook (Json.regular_object_iff.1 hregular).2 hentries).fragment
    | _ =>
      rw [step_leaf hfalsy rfl rfl] at hrun
      cases hrun
      rw [Essence.ofValue_leaf hfalsy rfl rfl, Essence.nodesOfAll_singleton, Essence.nodesOf,
        leaf, leaf, hscope]
      exact .refl _

end RecurAlike

/-- Compiling a value gives nodes like those of its essence, in any scope that gives leaves the
same texts. -/
theorem alike_build (hhook : ∀ name fields, c.mutate name fields = none) (budget : Nat) :
    c.RecurAlike (c.build budget) := by
  induction budget with
  | zero =>
    refine ⟨fun path _ _ hrun => ?_, fun _ hrun => ?_⟩ <;> cases hrun
  | succ budget ih =>
    exact ⟨fun path hregular hscope hrun => ih.step hhook path hregular hscope hrun,
      fun hscope hrun => nodeOf_eq hhook hscope hrun⟩

/-- Without overrides, the node of a schema is like those of its essence. -/
theorem alike_compile (hhook : ∀ name fields, c.mutate name fields = none) {schema : Json}
    (h : schema.Regular) :
    Node.Alike [c.compile schema] (nodesOfAll c .root (Essence.ofSchema c schema)) := by
  obtain ⟨node, names, hrun⟩ := ends_build hhook (Nat.lt_succ_self schema.depth) .root
  have hnode : c.compile schema = node := nodeOf_eq hhook (fun _ => rfl) hrun
  rw [hnode]
  exact (alike_build hhook _).alike none h (fun _ => rfl) hrun

/-- Without overrides, schemas of one essence have the same HTML. -/
theorem render_compile_eq (hhook : ∀ name fields, c.mutate name fields = none)
    {schema other : Json} (h : schema.Regular) (hother : other.Regular)
    (hsame : Essence.ofSchema c schema = Essence.ofSchema c other) (ctx : RenderContext) :
    Html.render ctx (c.compile schema) = Html.render ctx (c.compile other) := by
  have hessence : ∀ {value}, value.Regular →
      Html.render ctx (c.compile value) = Html.render ctx
        (.ofList (nodesOfAll c .root (Essence.ofSchema c value))) := by
    intro value hvalue
    have halike := alike_compile hhook hvalue
    refine Html.render_eq_of_alike ctx (.fragmentRight ?_)
    rwa [List.append_nil]
  rw [hessence h, hessence hother, hsame]

end Compiler

end ViewSchema
