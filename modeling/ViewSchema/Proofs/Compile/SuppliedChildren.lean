import ViewSchema.Proofs.Compile.SectionProps
import ViewSchema.Proofs.Json.Equality
import ViewSchema.Proofs.Json.Mapping
import ViewSchema.Proofs.Node.Passing

/-!
# Supplied children

The compiler adds the children that it is supplied with to the sections whose fields give the
target for a name.  That is not always the name that a section is compiled under.  Where it is, the
compiled tree is the one without supplied children, with all of them put after the content of the
elements that are named by the target, and nowhere else.

Main results:

- Definition `Node.extend`: nodes put after the children of elements, at any depth.
- Definition `Compiler.suppliedAt`: what belongs to an element, by its key and its name.
- Theorem `Compiler.children_of_compileSection`: the children of a section, by the name that its
  fields give.
- Theorem `Compiler.buildContent_eq_extend`: the whole tree, where names agree.
-/

namespace ViewSchema

namespace Compilation

variable {α β γ : Type}

/-- Turn the result into another one. -/
def map (f : α → β) (p : Compilation α) : Compilation β :=
  ⟨p.run?.map fun result => (f result.1, result.2)⟩

/-- A result that is there is mapped at once. -/
@[simp] theorem map_done (f : α → β) (a : α) : (done a).map f = done (f a) := rfl

/-- What comes after a result that is there comes first. -/
theorem done_andThen (a : α) (next : α → Compilation β) : (done a).andThen next = next a := by
  simp [andThen, done]

/-- The result of a sequence may be turned at its end. -/
theorem map_andThen (f : β → γ) (p : Compilation α) (next : α → Compilation β) :
    (p.andThen next).map f = p.andThen fun a => (next a).map f := by
  obtain ⟨_ | ⟨a, names⟩⟩ := p
  · rfl
  · simp [map, andThen, Function.comp_def]

/-- What was turned goes on from there. -/
theorem andThen_map (f : α → β) (p : Compilation α) (next : β → Compilation γ) :
    (p.map f).andThen next = p.andThen fun a => next (f a) := by
  obtain ⟨_ | ⟨a, names⟩⟩ := p <;> rfl

/-- Sequences are turned part by part. -/
theorem andThen_eq_map {δ : Type} {p : Compilation α} {f : α → δ} {next : δ → Compilation γ}
    {next' : α → Compilation β} {g : β → γ} (h : ∀ a, next (f a) = (next' a).map g) :
    (p.map f).andThen next = (p.andThen next').map g := by
  rw [andThen_map, map_andThen]
  exact congrArg (andThen p) (funext h)

/-- Two maps over a compilation are one. -/
theorem map_map (g : β → γ) (f : α → β) (p : Compilation α) :
    (p.map f).map g = p.map fun a => g (f a) := by
  obtain ⟨_ | ⟨a, names⟩⟩ := p <;> rfl

/-- A list is turned item by item. -/
theorem forEach_eq_map {g : α → Compilation β} {g' : α → Compilation γ} (f : β → γ)
    {xs : List α} (h : ∀ x ∈ xs, g' x = (g x).map f) :
    forEach g' xs = (forEach g xs).map (List.map f) := by
  induction xs with
  | nil => rfl
  | cons x xs ih =>
    have hrest := ih fun y hy => h y (List.mem_cons_of_mem _ hy)
    rw [forEach, forEach, h x List.mem_cons_self, hrest]
    exact andThen_eq_map fun y => andThen_eq_map fun ys => rfl

end Compilation

/-! ## Extended trees -/

namespace Node

mutual

/-- Put nodes after the children of elements, at any depth. -/
def extend (added : Element Node → List Node) : Node → Node
  | nothing => nothing
  | text key value => text key value
  | fragment key children => fragment key (extendAll added children)
  | element e =>
    element
      { e with
        rendered := extendFields added e.rendered
        children := extendAll added e.children ++ added e }

def extendAll (added : Element Node → List Node) : List Node → List Node
  | [] => []
  | c :: cs => extend added c :: extendAll added cs

def extendFields (added : Element Node → List Node) :
    List (String × Node) → List (String × Node)
  | [] => []
  | (name, c) :: cs => (name, extend added c) :: extendFields added cs

end

variable {added : Element Node → List Node}

/-- Children are supplied to nodes one by one. -/
theorem extendAll_eq_map (nodes : List Node) :
    extendAll added nodes = nodes.map (extend added) := by
  induction nodes with
  | nil => rfl
  | cons node rest ih => rw [extendAll, ih, List.map_cons]

/-- Children are supplied to named nodes under their names. -/
theorem extendFields_eq_mapValues (fields : List (String × Node)) :
    extendFields added fields = Fields.mapValues (extend added) fields := by
  induction fields with
  | nil => rfl
  | cons field rest ih => rw [extendFields, ih, Fields.mapValues_cons]

/-- Children are supplied to nodes however they are packed. -/
theorem extend_ofList (nodes : List Node) :
    extend added (.ofList nodes) = .ofList (nodes.map (extend added)) := by
  rw [ofList, ofList, extend, extendAll_eq_map]

/-- Supplying children does not make something of nothing. -/
@[simp] theorem isNothing_extend (node : Node) :
    (extend added node).isNothing = node.isNothing := by
  cases node <;> rfl

/-- Nodes that are nothing are dropped before or after. -/
theorem filter_map_extend (nodes : List Node) :
    (nodes.map (extend added)).filter (fun node => !node.isNothing) =
      (nodes.filter fun node => !node.isNothing).map (extend added) := by
  rw [List.filter_map]
  simp [Function.comp_def]

end Node

namespace Compiler

variable {c : Compiler} {recur recur' : Json → Scope → Compilation Node}
  {fields mutated : List (String × Json)} {name : String} {scope : Scope} {value inner : Json}

/-- The same compiler without a target for the children that it is supplied with. -/
def withoutChildren (c : Compiler) : Compiler :=
  { c with props := { c.props with childrenIn := none } }

/-- The supplied children, without those that are nothing. -/
def supplied (c : Compiler) : List Node := c.props.children.filter fun node => !node.isNothing

/-- The supplied children that belong to an element: all of them, if the target is the key and the
name of a component that compiles its content. -/
def suppliedAt (c : Compiler) (element : Element Node) : List Node :=
  match c.props.childrenIn, element.kind with
  | some target, .component d =>
    if element.key = some target ∧ element.string? "name" = some target ∧
        d.keepsRawContent = false then c.supplied
    else []
  | _, _ => []

/-- Elements without a key get nothing, and neither do plain tags. -/
theorem suppliedAt_of_key_eq_none {element : Element Node} (h : element.key = none) :
    c.suppliedAt element = [] := by
  unfold suppliedAt
  split
  · exact if_neg fun hall => by simp [h] at hall
  · rfl

/-- Plain tags are supplied with no children. -/
theorem suppliedAt_of_host {element : Element Node} (h : ∃ tag, element.kind = .host tag) :
    c.suppliedAt element = [] := by
  obtain ⟨tag, htag⟩ := h
  unfold suppliedAt
  split
  · rename_i target d _ hkind
    exact absurd (htag.symm.trans hkind) (by simp)
  · rfl

/-! ## Leaves -/

mutual

/-- Nothing is put into inline markup: its elements have no keys. -/
theorem extend_markupNode : ∀ markup : Markup,
    Node.extend c.suppliedAt (c.withoutChildren.markupNode markup) = c.markupNode markup
  | .text value => rfl
  | .tag tag attributes children => by
    have hinside := extendAll_markupNodes children
    rw [markupNode, markupNode]
    cases Markup.componentFor? tag
    all_goals
      simp only [Node.extend, hinside, Node.element.injEq]
      rw [suppliedAt_of_key_eq_none rfl, List.append_nil]
      rfl

/-- Nodes of markup are plain tags and texts, so that none of them is supplied. -/
theorem extendAll_markupNodes : ∀ markups : List Markup,
    Node.extendAll c.suppliedAt (c.withoutChildren.markupNodes markups) = c.markupNodes markups
  | [] => rfl
  | m :: ms => by
    rw [markupNodes, markupNodes, Node.extendAll, extend_markupNode, extendAll_markupNodes]

end

/-- A leaf is text or markup, and is not supplied either. -/
theorem extend_leaf (value : Json) (scope : Scope) :
    Node.extend c.suppliedAt (c.withoutChildren.leaf value scope) = c.leaf value scope := by
  have htext : c.withoutChildren.leafText value scope = c.leafText value scope := rfl
  rw [leaf, leaf, htext, textNode, textNode]
  split
  · rw [Node.extend, extendAll_markupNodes]
  · rfl

/-! ## Sections -/

/-- A plain tag around other nodes stays as it is. -/
theorem extend_append {element : Element Node} (hbare : element.BareHost)
    (hrendered : element.rendered = []) (nodes : List Node) :
    Node.extend c.suppliedAt (.element (element.append nodes)) =
      .element (element.append (nodes.map (Node.extend c.suppliedAt))) := by
  have hchildren : (element.append nodes).children = nodes := by
    rw [Element.append, hbare.childless, List.nil_append]
  have hnone : c.suppliedAt (element.append nodes) = [] := suppliedAt_of_host hbare.host
  rw [Node.extend, hchildren, hnone, List.append_nil, Node.extendAll_eq_map]
  simp only [Element.append, hrendered, Node.extendFields, hbare.childless, List.nil_append]

/-- A wrapper is put around an extended node as around any other one. -/
theorem extend_wrapped (name : String) (mutated : List (String × Json)) (node : Node) :
    Node.extend c.suppliedAt (c.wrapped name mutated node) =
      c.wrapped name mutated (Node.extend c.suppliedAt node) := by
  have hrendered : ∀ (element : Element Node) (classes : ClassList),
      (element.withClasses classes).rendered = element.rendered := by
    intro element classes
    unfold Element.withClasses
    split <;> rfl
  unfold wrapped
  split
  · rename_i tag _
    refine extend_append ((((Element.BareHost.ofHost tag).withKey _).withClasses _).withProp _ _)
      ?_ [node]
    exact hrendered _ _
  · rfl

/-- The prop that holds the name a section is compiled under. -/
theorem string?_markedProps (name : String) (mutated : List (String × Json)) :
    Fields.string? (c.markedProps name mutated) "name" = some name := by
  have hsection : (c.sectionProps (c.descriptorOf mutated) name mutated).lookup "name" =
      some (.string name) := by
    rw [sectionProps, lookup_addAmbient_eq]
    split <;> simp [Fields.lookup_set]
  unfold markedProps Fields.string?
  dsimp only
  split
  · rw [markUnwrapped, Fields.lookup_set, if_neg (by decide), hsection]
    rfl
  · rw [hsection]
    rfl

/-- The children of an assembled section are extended, and what belongs to it comes after them. -/
theorem extend_assemble (name : String) (rendered : List (String × Node)) (children : List Node) :
    Node.extend c.suppliedAt
      (c.assemble (c.descriptorOf mutated) name mutated rendered children) =
      c.assemble (c.descriptorOf mutated) name mutated
        (Fields.mapValues (Node.extend c.suppliedAt) rendered)
        (children.map (Node.extend c.suppliedAt) ++
          if c.props.childrenIn = some name ∧ (c.descriptorOf mutated).keepsRawContent = false
          then c.supplied else []) := by
  have hlist : Fields.ofList (Fields.mapValues (Node.extend c.suppliedAt) rendered) =
      Fields.mapValues (Node.extend c.suppliedAt) (Fields.ofList rendered) :=
    Fields.setAll_mapValues [] rendered
  have hown : c.suppliedAt
      { key := some name, kind := .component (c.descriptorOf mutated),
        props := c.markedProps name mutated, rendered := Fields.ofList rendered, children } =
      if c.props.childrenIn = some name ∧ (c.descriptorOf mutated).keepsRawContent = false
      then c.supplied else [] := by
    have hname := c.string?_markedProps name mutated
    unfold suppliedAt Element.string?
    cases c.props.childrenIn with
    | none => simp
    | some target =>
      refine if_congr ?_ rfl rfl
      rw [hname, Option.some.injEq, Option.some.injEq, eq_comm, ← and_assoc, and_self]
  rw [assemble_eq, assemble_eq, extend_wrapped, Node.extend, hown, hlist,
    Node.extendAll_eq_map, Node.extendFields_eq_mapValues]

/-- The fields of every section on the way give the target for a name just if the section is
compiled under that name. -/
def NamedByFields (c : Compiler) (value : Json) : Prop :=
  ∀ target, c.props.childrenIn = some target → ∀ inner, c.Reaches value inner →
    ∀ own ∈ Section.ofValue inner, Section.isInactive (c.mutated own.1 own.2) = false →
      (c.descriptorOf (c.mutated own.1 own.2)).keepsRawContent = false →
        (Section.name? (c.mutated own.1 own.2) = some target ↔ own.1 = target)

/-- What is compiled inside a value takes its names from fields if the value does. -/
theorem NamedByFields.inside (h : c.NamedByFields value) (hinside : c.Inside value inner) :
    c.NamedByFields inner :=
  fun target htarget deeper hdeeper => h target htarget deeper (.head hinside hdeeper)

/-- Named values are extended one by one. -/
theorem buildNamed_extend (h : ∀ field ∈ fields, recur field.2 scope =
      (recur' field.2 scope).map (Node.extend c.suppliedAt)) :
    buildNamed recur scope fields =
      (buildNamed recur' scope fields).map (Fields.mapValues (Node.extend c.suppliedAt)) := by
  refine Compilation.forEach_eq_map
    (fun field : String × Node => (field.1, Node.extend c.suppliedAt field.2)) ?_
  intro field hfield
  rw [h field hfield]
  exact Compilation.andThen_eq_map fun node => rfl

/-- A section has its own children first, and then those that are supplied, just if the target is
the name that its fields give. -/
theorem sectionChildren_eq (c : Compiler) (recur : Json → Scope → Compilation Node)
    (mutated : List (String × Json)) (scope : Scope) :
    c.sectionChildren recur mutated scope =
      (c.withoutChildren.sectionChildren recur mutated scope).map fun own =>
        own ++ if c.receivesChildren mutated then c.supplied else [] := by
  have hsupplied : ∀ own : List Node,
      ((own ++ if c.receivesChildren mutated then c.props.children else []).filter
        fun node => !node.isNothing) =
        (own.filter fun node => !node.isNothing) ++
          if c.receivesChildren mutated then c.supplied else [] := by
    intro own
    rw [List.filter_append]
    split <;> rfl
  have hnone : c.withoutChildren.receivesChildren mutated = false := rfl
  cases hcontent : mutated.lookup "content" with
  | none =>
    simp only [sectionChildren, hcontent, hnone, hsupplied]
    rfl
  | some content =>
    simp only [sectionChildren, hcontent, hnone, hsupplied, Compilation.bind_eq_andThen,
      Compilation.pure_eq_done, Compilation.map_andThen, Compilation.done_andThen,
      Compilation.map_done, Bool.false_eq_true, if_false, List.append_nil]

/-- Without supplied children, a section is extended when its content is. -/
theorem sectionChildren_extend (h : ∀ content, mutated.lookup "content" = some content →
      recur content scope = (recur' content scope).map (Node.extend c.suppliedAt)) :
    c.withoutChildren.sectionChildren recur mutated scope =
      (c.withoutChildren.sectionChildren recur' mutated scope).map
        (List.map (Node.extend c.suppliedAt)) := by
  have hnone : c.withoutChildren.receivesChildren mutated = false := rfl
  cases hcontent : mutated.lookup "content" with
  | none =>
    simp only [sectionChildren, hcontent, hnone]
    rfl
  | some content =>
    simp only [sectionChildren, hcontent, hnone, h content hcontent, Compilation.bind_eq_andThen,
      Compilation.pure_eq_done, Compilation.andThen_map, Compilation.map_andThen,
      Compilation.done_andThen, Compilation.map_done, Bool.false_eq_true, if_false,
      List.append_nil, ← Node.filter_map_extend, List.map_singleton]

/-- A section receives the supplied children just if it is compiled under the target, where its
fields give the target for a name just if it is compiled under that name. -/
theorem receivesChildren_iff (hname : ∀ target, c.props.childrenIn = some target →
      (Section.name? mutated = some target ↔ name = target)) :
    c.receivesChildren mutated = true ↔ c.props.childrenIn = some name := by
  unfold receivesChildren
  cases htarget : c.props.childrenIn with
  | none => simp
  | some target =>
    dsimp only
    rw [beq_iff_eq, hname target htarget, Option.some.injEq, eq_comm]

/-- The children of a section that is compiled under the target are extended, and the supplied ones
come after them. -/
theorem children_extend
    (hcontent : ∀ content ∈ (c.compiledContent? mutated).toList,
      recur content scope = (recur' content scope).map (Node.extend c.suppliedAt))
    (hname : ∀ target, c.props.childrenIn = some target →
      (c.descriptorOf mutated).keepsRawContent = false →
        (Section.name? mutated = some target ↔ name = target)) :
    (if (c.descriptorOf mutated).keepsRawContent then Compilation.done []
      else c.sectionChildren recur mutated scope) =
    (if (c.descriptorOf mutated).keepsRawContent then Compilation.done []
      else c.withoutChildren.sectionChildren recur' mutated scope).map fun own =>
        own.map (Node.extend c.suppliedAt) ++
          if c.props.childrenIn = some name ∧ (c.descriptorOf mutated).keepsRawContent = false
          then c.supplied else [] := by
  unfold compiledContent? at hcontent
  cases hraw : (c.descriptorOf mutated).keepsRawContent with
  | true => simp
  | false =>
    have hreceives := receivesChildren_iff fun target htarget => hname target htarget hraw
    simp only [hraw, Bool.false_eq_true, if_false, Option.mem_toList] at hcontent ⊢
    rw [sectionChildren_eq, sectionChildren_extend hcontent, Compilation.map_map]
    simp only [hreceives, and_true]

/-- A mutated section with its supplied children is extended, where its fields give the target for
a name just if it is compiled under that name. -/
theorem compileMutated_extend
    (hvalues : ∀ value ∈ c.valuesOf mutated, ∀ scope,
      recur value scope = (recur' value scope).map (Node.extend c.suppliedAt))
    (hname : ∀ target, c.props.childrenIn = some target →
      Section.isInactive mutated = false → (c.descriptorOf mutated).keepsRawContent = false →
        (Section.name? mutated = some target ↔ name = target)) :
    c.compileMutated recur mutated name scope =
      (c.withoutChildren.compileMutated recur' mutated name scope).map
        (Node.extend c.suppliedAt) := by
  unfold valuesOf at hvalues
  unfold compileMutated
  cases hactive : Section.isInactive mutated with
  | true => rfl
  | false =>
    simp only [hactive, Bool.false_eq_true, if_false, List.forall_mem_append,
      List.forall_mem_map] at hvalues ⊢
    obtain ⟨⟨hslots, hlabels⟩, hcontent⟩ := hvalues
    have hchildren := fun inner =>
      children_extend (fun content hfound => hcontent content hfound inner)
        fun target htarget hraw => hname target htarget hactive hraw
    rw [buildNamed_extend fun field hfield => hslots field hfield _,
      buildNamed_extend fun field hfield => hlabels field hfield _]
    refine Compilation.andThen_eq_map fun slots => Compilation.andThen_eq_map fun labels => ?_
    rw [hchildren]
    refine Compilation.andThen_eq_map fun own => ?_
    have hboth : Fields.mapValues (Node.extend c.suppliedAt) (slots ++ labels) =
        Fields.mapValues (Node.extend c.suppliedAt) slots ++
          Fields.mapValues (Node.extend c.suppliedAt) labels := List.map_append
    rw [Compilation.map_done, ← hboth, ← extend_assemble]
    rfl

/-- One step is extended when the steps inside are. -/
theorem step_extend
    (hrecur : ∀ inner scope, c.NamedByFields inner →
      recur inner scope = (recur' inner scope).map (Node.extend c.suppliedAt))
    (hvalue : c.NamedByFields value) :
    c.step recur value scope =
      (c.withoutChildren.step recur' value scope).map (Node.extend c.suppliedAt) := by
  cases hfalsy : value.isFalsy with
  | true =>
    rw [step_falsy hfalsy, step_falsy hfalsy]
    rfl
  | false =>
    cases value with
    | array items =>
      have hitems : ∀ item ∈ items, recur item scope =
          (recur' item scope).map (Node.extend c.suppliedAt) :=
        fun item hitem => hrecur item scope (hvalue.inside hitem)
      rw [step_array, step_array, Compilation.forEach_eq_map _ hitems]
      refine Compilation.andThen_eq_map fun nodes => ?_
      rw [Compilation.map_done, Node.extend_ofList]
    | object fields =>
      have hsection : ∀ own ∈ Section.ofValue (.object fields),
          c.compileSection recur own.2 own.1 scope =
            (c.withoutChildren.compileSection recur' own.2 own.1 scope).map
              (Node.extend c.suppliedAt) := by
        intro own hown
        rw [compileSection_eq, compileSection_eq, Compilation.map_andThen]
        refine congrArg (Compilation.andThen _) (funext fun _ => ?_)
        refine compileMutated_extend ?_ fun target htarget => ?_
        · intro inner hinner scope
          exact hrecur inner scope (hvalue.inside (List.mem_flatMap.2 ⟨own, hown, hinner⟩))
        · exact hvalue target htarget _ .refl own hown
      unfold Section.ofValue at hsection
      cases hname : Section.name? fields with
      | some name =>
        rw [step_named hname, step_named hname]
        simp only [hname, List.forall_mem_singleton] at hsection
        exact hsection
      | none =>
        rw [step_entries hname, step_entries hname]
        simp only [hname, List.forall_mem_map] at hsection
        rw [Compilation.forEach_eq_map _ hsection]
        refine Compilation.andThen_eq_map fun nodes => ?_
        rw [Compilation.map_done, Node.extend_ofList]
    | _ =>
      rw [step_leaf hfalsy rfl rfl, step_leaf hfalsy rfl rfl, Compilation.map_done]
      exact congrArg Compilation.done (extend_leaf _ _).symm

/-- The element of a section has the name that it is compiled under for its key and its name, and
it has the supplied children after its own if the target is the name that its fields give. -/
theorem children_of_compileSection {node : Node} {names : List String}
    (h : (c.compileSection recur fields name scope).run? = some (node, names))
    (hactive : Section.isInactive (c.mutated name fields) = false)
    (hraw : (c.descriptorOf (c.mutated name fields)).keepsRawContent = false) :
    ∃ (element : Element Node) (own : List Node) (visited : List String),
      node = c.wrapped name (c.mutated name fields) (.element element) ∧
      element.key = some name ∧ element.string? "name" = some name ∧
      (c.withoutChildren.sectionChildren recur (c.mutated name fields)
        (scope.enter name (Section.handedOn (c.mutated name fields)))).run? =
          some (own, visited) ∧
      element.children = own ++ if c.receivesChildren (c.mutated name fields) then c.supplied
        else [] := by
  rcases compileSection_cases h with ⟨hinactive, -, -⟩ | ⟨-, parts, hnode, -⟩
  · exact absurd hinactive (by simp [hactive])
  · have hchildren := parts.children_eq
    rw [hraw, if_neg Bool.false_ne_true, sectionChildren_eq] at hchildren
    obtain ⟨⟨own, visited⟩, hown, heq⟩ := Option.map_eq_some_iff.1 hchildren
    rw [assemble_eq] at hnode
    exact ⟨_, own, visited, hnode, rfl, c.string?_markedProps name _, hown,
      (congrArg Prod.fst heq).symm⟩

/-- Where sections are compiled under the names that their fields give, compiling with supplied
children gives the tree without them, with all of them put after the children of the components that
are named by the target and compile their content, and nowhere else. -/
theorem buildContent_eq_extend {schema : Json} (hnames : c.NamedByFields schema) (budget : Nat)
    (index : Option Nat) :
    c.buildContent budget (.schema schema) index =
      (c.withoutChildren.buildContent budget (.schema schema) index).map
        (Node.extend c.suppliedAt) := by
  suffices hbuild : ∀ value scope, c.NamedByFields value →
      c.build budget value scope =
        (c.withoutChildren.build budget value scope).map (Node.extend c.suppliedAt) from
    hbuild schema .root hnames
  clear hnames
  induction budget with
  | zero => exact fun _ _ _ => rfl
  | succ budget ih => exact fun value scope hvalue => step_extend ih hvalue

/-- A compiler that supplies a text, and beside it nothing, to the sections of a name. -/
def supplying (target : String) : Compiler where
  registry := .standard
  props :=
    { name := "root"
      children := [.text none "extra", .nothing]
      childrenIn := some target }

/-- A page body with a name from a list, beside a card that has the name of a part of it and
another page body in a slot. -/
def pageBodies : Json :=
  .object [("first", .object [("name", .array [.string "page", .string "body"]),
      ("content", .object [("name", .string "note")])]),
    ("body", .object [("component", .string "Card"),
      ("header", .object [("page-body", .object [])])])]

/-- Both page bodies have the children, wherever they stand. -/
theorem buildContent_pageBodies :
    (supplying "page-body").NamedByFields pageBodies ∧
      ((supplying "page-body").buildContent 4 (.schema pageBodies) none).Ends ∧
      (supplying "page-body").buildContent 4 (.schema pageBodies) none =
        ((supplying "page-body").withoutChildren.buildContent 4 (.schema pageBodies) none).map
          (Node.extend (supplying "page-body").suppliedAt) := by
  have hnames : (supplying "page-body").NamedByFields pageBodies := by
    intro target htarget inner hreaches own hown _ _
    have hinner : inner ∈ [pageBodies, .object [("name", .string "note")],
        .object [("page-body", .object [])]] :=
      hreaches.mem_of_closed List.mem_cons_self (by decide)
    have hall : ∀ inner ∈ [pageBodies, .object [("name", .string "note")],
        .object [("page-body", .object [])]], ∀ own ∈ Section.ofValue inner,
          (Section.name? ((supplying "page-body").mutated own.1 own.2) = some "page-body" ↔
            own.1 = "page-body") := by
      decide
    cases htarget
    exact hall inner hinner own hown
  exact ⟨hnames, by decide, buildContent_eq_extend hnames 4 none⟩

/-- An entry whose own name cannot be read is compiled under its key, but the children that are
supplied for a section of this name do not get there. -/
theorem exists_target_without_children :
    ∃ (node : Node) (names : List String) (element : Element Node),
      ((supplying "hero").buildContent 3
        (.schema (.object [("hero", .object [("name", .int 3)])])) none).run? =
          some (node, names) ∧
      node.findElement? "Component" = some element ∧
      element.key = some "hero" ∧ element.string? "name" = some "hero" ∧
      (supplying "hero").suppliedAt element = [.text none "extra"] ∧
      element.children = [] :=
  ⟨_, _, _, rfl, rfl, rfl, rfl, rfl, rfl⟩

end Compiler

end ViewSchema
