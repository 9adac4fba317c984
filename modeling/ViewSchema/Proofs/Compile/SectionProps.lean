import Mathlib.Data.List.Forall2
import ViewSchema.Proofs.Compile.Overrides

/-!
# What a component is given

The props of a section are what is left of its fields after several removals, with further props
set afterwards, and its rendered props come from two lists.  Read as maps both are simple: each
name has one rule, whichever other fields, slots and props there are.

Main results:

- Definition `Compiler.propOf?`: the prop of each name.
- Theorem `Compiler.lookup_markedProps`: the props of a section are these.
- Definition `Compiler.Renders`: what is compiled in the scope of a section, and under which names.
- Theorem `Compiler.lookup_rendered_iff`: the rendered props of a section are these.
- Theorem `Compiler.element_of_compileSection`: the element of a compiled section.
-/

namespace ViewSchema

/-- A field that is present stands among the fields, under one of the names. -/
theorem Section.mem_present_iff {fields : List (String × Json)} {names : List String}
    {name : String} {value : Json} :
    (name, value) ∈ present fields names ↔ name ∈ names ∧ fields.lookup name = some value := by
  unfold present
  simp only [List.mem_filterMap, Option.map_eq_some_iff, Prod.mk.injEq]
  constructor
  · rintro ⟨_, hname, _, hvalue, rfl, rfl⟩
    exact ⟨hname, hvalue⟩
  · rintro ⟨hname, hvalue⟩
    exact ⟨name, hname, value, hvalue, rfl, rfl⟩

/-- The routing prop of a name. -/
def CompilerProps.routing? (props : CompilerProps) (key : String) : Option Json :=
  if key = "location" then props.location
  else if key = "match" then props.routeMatch
  else if key = "navigate" then props.navigate
  else none

namespace Compiler

variable {c : Compiler} {recur : Json → Scope → Compilation Node}
  {mutated : List (String × Json)} {name key : String} {scope : Scope}

/-! ## Props -/

/-- A field of a mutated section that its component is given as it is written. -/
def writtenProp? (c : Compiler) (mutated : List (String × Json)) (key : String) : Option Json :=
  if key ∈ Section.reservedFields ∨ key ∈ (c.descriptorOf mutated).slots then none
  else mutated.lookup key

/-- Whether a mutated section is marked on its own, for want of a wrapper to be marked. -/
def IsMarked (c : Compiler) (mutated : List (String × Json)) : Prop :=
  c.props.test = true ∧ (c.wrapping (c.descriptorOf mutated) mutated).tag? = none

instance : Decidable (c.IsMarked mutated) := inferInstanceAs (Decidable (_ ∧ _))

/-- The style of a mutated section under the test border. -/
def markedStyle (c : Compiler) (mutated : List (String × Json)) : List (String × Json) :=
  Fields.set (((c.writtenProp? mutated "style").bind Json.object?).getD [])
    "border" (.string testBorder)

/-- The prop of each name that the component of a mutated section is given. -/
def propOf? (c : Compiler) (name : String) (mutated : List (String × Json)) (key : String) :
    Option Json :=
  if key = "name" then some (.string name)
  else if key = "managerName" then
    some ((mutated.lookup "managerName").getD (.string c.props.name))
  else if key = "content" then
    if (c.descriptorOf mutated).keepsRawContent then mutated.lookup "content" else none
  else if key = "style" ∧ c.IsMarked mutated then some (.object (c.markedStyle mutated))
  else (c.writtenProp? mutated key).or (c.props.routing? key)

theorem lookup_ambient (c : Compiler) (key : String) :
    c.ambient.lookup key = c.props.routing? key := by
  have hdistinct : Fields.Distinct [("location", c.props.location),
      ("match", c.props.routeMatch), ("navigate", c.props.navigate)] := by
    simp [Fields.Distinct]
  have hambient : c.ambient.lookup key = ([("location", c.props.location),
      ("match", c.props.routeMatch), ("navigate", c.props.navigate)].lookup key).bind id :=
    Fields.lookup_filterMap hdistinct id key
  rw [hambient, CompilerProps.routing?]
  simp only [Fields.lookup_cons, List.lookup_nil]
  split_ifs <;> rfl

theorem lookup_addAmbient_eq (c : Compiler) (props : List (String × Json)) (key : String) :
    (c.addAmbient props).lookup key = (props.lookup key).or (c.props.routing? key) := by
  rw [addAmbient, Fields.lookup_foldl_setIfMissing, lookup_ambient]

/-- The fields that are left when the slots are taken out of what is handed on. -/
theorem lookup_without_handedOn (hdistinct : Fields.Distinct mutated) (key : String) :
    (Section.without (Section.handedOn mutated) (c.descriptorOf mutated).slots).lookup key =
      c.writtenProp? mutated key := by
  rw [Section.lookup_without (Section.distinct_handedOn hdistinct),
    Section.lookup_handedOn hdistinct, writtenProp?]
  by_cases hslot : key ∈ (c.descriptorOf mutated).slots
  · rw [if_pos hslot, if_pos (.inr hslot)]
  · simp only [hslot, or_false, if_false]

/-- Before it is marked, a section has the props of each name, and its style as it is written. -/
theorem lookup_sectionProps (hdistinct : Fields.Distinct mutated) (name key : String) :
    (c.sectionProps (c.descriptorOf mutated) name mutated).lookup key =
      if key = "name" then some (.string name)
      else if key = "managerName" then
        some ((mutated.lookup "managerName").getD (.string c.props.name))
      else if key = "content" then
        if (c.descriptorOf mutated).keepsRawContent then mutated.lookup "content" else none
      else (c.writtenProp? mutated key).or (c.props.routing? key) := by
  have hreserved : c.writtenProp? mutated "content" = none := if_pos (.inl (by decide))
  have hmanaged : ∀ (manager : Json) (key : String),
      (Fields.set (Fields.set (Section.without (Section.handedOn mutated)
        (c.descriptorOf mutated).slots) "name" (.string name)) "managerName" manager).lookup key =
        if key = "managerName" then some manager
        else if key = "name" then some (.string name) else c.writtenProp? mutated key := by
    intro manager key
    rw [Fields.lookup_set, Fields.lookup_set, lookup_without_handedOn hdistinct]
  have hset : (c.sectionProps (c.descriptorOf mutated) name mutated).lookup key =
      (if key = "content" then
        if (c.descriptorOf mutated).keepsRawContent then mutated.lookup "content" else none
      else if key = "managerName" then
        some ((mutated.lookup "managerName").getD (.string c.props.name))
      else if key = "name" then some (.string name)
      else c.writtenProp? mutated key).or (c.props.routing? key) := by
    rw [sectionProps, lookup_addAmbient_eq]
    refine congrArg (Option.or · (c.props.routing? key)) ?_
    split
    · rename_i content hraw hcontent
      rw [Fields.lookup_set, hmanaged, hraw, hcontent, if_pos rfl]
    · rename_i hnot
      rw [hmanaged]
      by_cases hkey : key = "content"
      · subst hkey
        cases hraw : (c.descriptorOf mutated).keepsRawContent with
        | false => simp [hreserved]
        | true =>
          have hnone : mutated.lookup "content" = none :=
            Option.eq_none_iff_forall_ne_some.2 fun content => hnot content hraw
          simp [hreserved, hnone]
      · rw [if_neg hkey]
  -- The props are set in another order than the rules are told in.
  rw [hset]
  by_cases hname : key = "name"
  · simp [hname]
  by_cases hmanager : key = "managerName"
  · simp [hmanager]
  by_cases hkey : key = "content"
  · simp [hkey, CompilerProps.routing?]
  simp only [hname, hmanager, hkey, if_false]

/-- The names of the props are distinct. -/
theorem distinct_sectionProps (hdistinct : Fields.Distinct mutated) (name : String) :
    Fields.Distinct (c.sectionProps (c.descriptorOf mutated) name mutated) := by
  have hkept := Section.distinct_without (Section.distinct_handedOn hdistinct)
    (c.descriptorOf mutated).slots
  unfold sectionProps
  refine Fields.Distinct.foldl_setIfMissing ?_ c.ambient
  split
  · exact ((hkept.set _ _).set _ _).set _ _
  · exact (hkept.set _ _).set _ _

/-! ## Marks -/

/-- The props of a section, marked for want of a wrapper. -/
def markedProps (c : Compiler) (name : String) (mutated : List (String × Json)) :
    List (String × Json) :=
  let props := c.sectionProps (c.descriptorOf mutated) name mutated
  if c.IsMarked mutated then markUnwrapped props else props

/-- The border is one field of a style. -/
theorem deepMerge_border (style : List (String × Json)) (border : String) :
    deepMerge (.object style) (.object [("border", .string border)]) =
      .object (Fields.set style "border" (.string border)) := by
  rw [deepMerge, deepMergeFields, deepMergeFields]
  cases style.lookup "border" with
  | none => rfl
  | some existing => simp only [deepMerge]

/-- A section has the props of each name. -/
theorem lookup_markedProps (hdistinct : Fields.Distinct mutated) (name key : String) :
    (c.markedProps name mutated).lookup key = c.propOf? name mutated key := by
  have hsection := fun key => c.lookup_sectionProps hdistinct name key
  unfold markedProps propOf?
  dsimp only
  by_cases hmarked : c.IsMarked mutated
  · have hstyle : (c.sectionProps (c.descriptorOf mutated) name mutated).lookup "style" =
        c.writtenProp? mutated "style" := by
      rw [hsection]
      exact Option.or_none
    have hfields : (((c.writtenProp? mutated "style").filter Json.isObject).getD (.object [])) =
        .object (((c.writtenProp? mutated "style").bind Json.object?).getD []) := by
      cases c.writtenProp? mutated "style" with
      | none => rfl
      | some style => cases style <;> rfl
    rw [if_pos hmarked, markUnwrapped, Fields.lookup_set, hstyle, hfields, deepMerge_border,
      hsection]
    by_cases hkey : key = "style"
    · simp [hkey, hmarked, markedStyle]
    · simp only [hkey, false_and, if_false]
  · rw [if_neg hmarked, hsection]
    simp only [hmarked, and_false, if_false]

theorem distinct_markedProps (hdistinct : Fields.Distinct mutated) (name : String) :
    Fields.Distinct (c.markedProps name mutated) := by
  have hprops := c.distinct_sectionProps hdistinct name
  unfold markedProps
  dsimp only
  split
  · exact hprops.set "style" _
  · exact hprops

/-! ## Rendered props -/

/-- What is compiled of a mutated section, each value in the scope of the section: its labels, and
those slots of its component that are not kept from it. -/
def Renders (c : Compiler) (recur : Json → Scope → Compilation Node)
    (mutated : List (String × Json)) (scope : Scope) (key : String) (node : Node) : Prop :=
  (key ∈ Section.renderedFields ∨
    key ∈ (c.descriptorOf mutated).slots ∧ key ∉ Section.reservedFields) ∧
  ∃ value visited, mutated.lookup key = some value ∧
    (recur value scope).run? = some (node, visited)

/-- Under each name, one node is rendered. -/
theorem Renders.unique {node node' : Node} (h : c.Renders recur mutated scope key node)
    (h' : c.Renders recur mutated scope key node') : node = node' := by
  obtain ⟨-, value, visited, hvalue, hrun⟩ := h
  obtain ⟨-, value', visited', hvalue', hrun'⟩ := h'
  rw [hvalue, Option.some.injEq] at hvalue'
  subst hvalue'
  exact congrArg Prod.fst (Option.some.inj (hrun.symm.trans hrun'))

/-- Named values keep their names, and each is compiled for itself. -/
theorem forall₂_of_buildNamed {fields : List (String × Json)} {nodes : List (String × Node)}
    {names : List String} (h : (buildNamed recur scope fields).run? = some (nodes, names)) :
    List.Forall₂ (fun field node => node.1 = field.1 ∧
      ∃ visited, (recur field.2 scope).run? = some (node.2, visited)) fields nodes := by
  refine (Compilation.forall₂_of_forEach h).imp ?_
  rintro field node ⟨visited, hrun⟩
  obtain ⟨inner, before, after, hinner, hdone, -⟩ := Compilation.run?_andThen_eq_some.1 hrun
  cases hdone
  exact ⟨rfl, before, hinner⟩

/-- Each of the named nodes comes from a field of its name. -/
theorem mem_of_forall₂ (related : Json → Node → Prop) {fields : List (String × Json)}
    {nodes : List (String × Node)}
    (h : List.Forall₂ (fun field node => node.1 = field.1 ∧ related field.2 node.2) fields nodes) :
    Fields.names nodes = Fields.names fields ∧
      ∀ node ∈ nodes, ∃ value, (node.1, value) ∈ fields ∧ related value node.2 := by
  induction h with
  | nil => exact ⟨rfl, by simp⟩
  | @cons field node fields nodes hfirst _ ih =>
    obtain ⟨hname, hrelated⟩ := hfirst
    obtain ⟨hnames, hnodes⟩ := ih
    constructor
    · rw [Fields.names_cons, Fields.names_cons, hname, hnames]
    · intro other hother
      rcases List.mem_cons.1 hother with rfl | hrest
      · exact ⟨field.2, hname ▸ List.mem_cons_self, hrelated⟩
      · obtain ⟨value, hvalue, hafter⟩ := hnodes other hrest
        exact ⟨value, List.mem_cons_of_mem _ hvalue, hafter⟩

/-- The rendered props of a section are what is rendered of it, and nothing else. -/
theorem lookup_rendered_iff (hdistinct : Fields.Distinct mutated)
    (parts : CompiledParts c recur mutated scope) (key : String) (node : Node) :
    (Fields.ofList (parts.slots ++ parts.labels)).lookup key = some node ↔
      c.Renders recur mutated scope key node := by
  have hfields : ∀ key value,
      (key, value) ∈ Section.present (Section.handedOn mutated) (c.descriptorOf mutated).slots ++
        Section.present mutated Section.renderedFields ↔
      (key ∈ Section.renderedFields ∨
        key ∈ (c.descriptorOf mutated).slots ∧ key ∉ Section.reservedFields) ∧
          mutated.lookup key = some value := by
    intro key value
    rw [List.mem_append, Section.mem_present_iff, Section.mem_present_iff,
      Section.lookup_handedOn hdistinct]
    by_cases hreserved : key ∈ Section.reservedFields
    · simp [hreserved]
    · simp only [hreserved, if_false, not_false_eq_true, and_true]
      rw [or_and_right, or_comm]
  obtain ⟨hnames, hnodes⟩ := mem_of_forall₂
    (fun value node => ∃ visited, (recur value scope).run? = some (node, visited))
    (List.rel_append (forall₂_of_buildNamed parts.slots_eq)
      (forall₂_of_buildNamed parts.labels_eq))
  refine Fields.lookup_ofList_iff ?_ ?_ ?_
  · intro pair hpair
    obtain ⟨value, hvalue, visited, hrun⟩ := hnodes pair hpair
    obtain ⟨hkey, hfound⟩ := (hfields pair.1 value).1 hvalue
    exact ⟨hkey, value, visited, hfound, hrun⟩
  · rintro key node ⟨hkey, value, visited, hfound, hrun⟩
    rw [hnames]
    exact List.mem_map_of_mem ((hfields key value).2 ⟨hkey, hfound⟩)
  · intro key node node' h h'
    exact h.unique h'

/-! ## The element -/

/-- A node in the wrapper of a mutated section, if that has one. -/
def wrapped (c : Compiler) (name : String) (mutated : List (String × Json)) (inner : Node) :
    Node :=
  match (c.wrapping (c.descriptorOf mutated) mutated).tag? with
  | some tag => c.wrapperElement tag name mutated inner
  | none => inner

/-- A section is assembled around its element. -/
theorem assemble_eq (name : String) (rendered : List (String × Node)) (children : List Node) :
    c.assemble (c.descriptorOf mutated) name mutated rendered children =
      c.wrapped name mutated (.element
        { key := some name, kind := .component (c.descriptorOf mutated)
          props := c.markedProps name mutated, rendered := Fields.ofList rendered, children }) := by
  have hmarked : (c.props.test &&
      (c.wrapping (c.descriptorOf mutated) mutated).tag?.isNone) = true ↔ c.IsMarked mutated := by
    simp [IsMarked]
  unfold assemble markedProps
  dsimp only
  rw [if_congr hmarked rfl rfl]
  rfl

/-- An active section is compiled to the element of its component, in a wrapper if there is one.
Read as a map, the props of the element are those of each name, and its rendered props are the
labels and the slots that the section has, each compiled in the scope of the section. -/
theorem element_of_compileSection {fields : List (String × Json)} {budget : Nat} {node : Node}
    {names : List String} (hfields : (Json.object fields).Regular) (hhook : c.HookIsRegular)
    (h : (c.compileSection (c.build budget) fields name scope).run? = some (node, names))
    (hactive : Section.isInactive (c.mutated name fields) = false) :
    ∃ element : Element Node,
      node = c.wrapped name (c.mutated name fields) (.element element) ∧
      element.kind = .component (c.descriptorOf (c.mutated name fields)) ∧
      element.key = some name ∧
      Fields.Distinct element.props ∧
      (∀ key, element.props.lookup key = c.propOf? name (c.mutated name fields) key) ∧
      Fields.Distinct element.rendered ∧
      ∀ key inner, element.rendered.lookup key = some inner ↔
        c.Renders (c.build budget) (c.mutated name fields)
          (scope.enter name (Section.handedOn (c.mutated name fields))) key inner := by
  have hdistinct := (hhook.mutated hfields name).distinct
  rcases compileSection_cases h with ⟨hinactive, -, -⟩ | ⟨-, parts, hnode, -⟩
  · exact absurd hinactive (by simp [hactive])
  · rw [assemble_eq] at hnode
    exact ⟨_, hnode, rfl, rfl, distinct_markedProps hdistinct name,
      lookup_markedProps hdistinct name, Fields.distinct_ofList _,
      lookup_rendered_iff hdistinct parts⟩

/-- A compiler in test mode that holds a location and a match, with a style for one section. -/
def routed : Compiler :=
  Compiler.withOverrides
    { registry := .standard
      props :=
        { name := "root"
          test := true
          location := some (.string "/menu")
          routeMatch := some (.object [("path", .string "/menu")]) } }
    [("offer", .object [("style", .object [("color", .string "red")])])]

/-- A card without a wrapper, with a match of its own, a style, a slot, a label and content. -/
def offerCard : List (String × Json) :=
  [("name", .string "offer"), ("component", .string "Card"), ("wrapper", .bool false),
    ("match", .null), ("style", .object [("margin", .string "0")]),
    ("header", .object [("name", .string "title")]), ("label", .array []),
    ("content", .object [("name", .string "body")])]

theorem element_of_offerCard :
    (Json.object offerCard).Regular ∧ routed.HookIsRegular ∧
      Section.isInactive (routed.mutated "offer" offerCard) = false ∧
      ∃ (element : Element Node) (names : List String),
        (routed.compileSection (routed.build 2) offerCard "offer" .root).run? =
          some (.element element, names) ∧
        element.props.lookup "style" = some (.object [("margin", .string "0"),
          ("color", .string "red"), ("border", .string testBorder)]) ∧
        element.props.lookup "location" = some (.string "/menu") ∧
        element.props.lookup "match" = some .null ∧
        element.props.lookup "managerName" = some (.string "root") ∧
        element.props.lookup "header" = none ∧
        element.rendered.lookup "label" = some (.fragment none []) ∧
        element.rendered.lookup "content" = none := by
  have hfields : (Json.object offerCard).Regular := by
    simp [offerCard, Json.Regular, Json.RegularFields, Json.RegularItems, Fields.Distinct]
  have hhook : routed.HookIsRegular := by
    refine hookIsRegular_withOverrides ?_ _
    simp [Json.Regular, Json.RegularFields, Fields.Distinct]
  have hactive : Section.isInactive (routed.mutated "offer" offerCard) = false := rfl
  have hends : (routed.compileSection (routed.build 2) offerCard "offer" .root).Ends := by decide
  obtain ⟨node, names, hrun⟩ := hends
  obtain ⟨element, hnode, -, -, -, hprops, -, hrendered⟩ :=
    element_of_compileSection hfields hhook hrun hactive
  have hbare : routed.wrapped "offer" (routed.mutated "offer" offerCard) (.element element) =
      .element element := rfl
  rw [hnode, hbare] at hrun
  refine ⟨hfields, hhook, hactive, element, names, hrun, (hprops "style").trans rfl,
    (hprops "location").trans rfl, (hprops "match").trans rfl, (hprops "managerName").trans rfl,
    (hprops "header").trans rfl, ?_, ?_⟩
  · rw [hrendered]
    exact ⟨.inl (by decide), .array [], [], rfl, rfl⟩
  · rw [Option.eq_none_iff_forall_ne_some]
    intro inner hcontent
    obtain ⟨hkey, -⟩ := (hrendered _ _).1 hcontent
    exact absurd hkey (by decide)

end Compiler

end ViewSchema
