import ViewSchema.Compile.Compilation
import ViewSchema.Compile.Section
import ViewSchema.Component.Registry
import ViewSchema.Dictionary
import ViewSchema.Format
import ViewSchema.Json.Depth
import ViewSchema.Markup.Tree
import ViewSchema.Merge
import ViewSchema.Node.Basic

/-!
# The compiler

Schemas compiled into node trees.

- Falsy values become nothing.
- Texts, numbers and booleans are translated, formatted and keyed by their text;
  inline markup in them becomes elements.
- Arrays compile item by item, objects without a name are maps of sections.
- An object with a name is a section: it is mutated, its slots, labels and
  content are compiled, and its component element is wrapped where the wrapping
  rules say so.

A mutation hook may bring in new content at every section, so that compiling
need not end; `Compiler.build` therefore has a budget of nested steps.
`MutationMap.budget` is enough of it for overrides by name, where any is.
-/

namespace ViewSchema

/-- The overrides of a section, given its name and fields. -/
abbrev MutationHook := String → List (String × Json) → Option (List (String × Json))

/-- The settings of a compiler that do not depend on a schema. -/
structure CompilerProps where
  /-- The name of the root, which manages every section that names no other. -/
  name : String
  /-- Nodes added to the section that `childrenIn` names. -/
  children : List Node := []
  childrenIn : Option String := none
  /-- Classes of every wrapper. -/
  wrapperClasses : ClassList := .empty
  /-- Mark wrappers, and sections without one. -/
  test : Bool := false
  location : Option Json := none
  routeMatch : Option Json := none
  navigate : Option Json := none

/-- A compiler with its collaborators. -/
structure Compiler where
  registry : Registry
  props : CompilerProps
  mutate : MutationHook := fun _ _ => none
  translate : String → Option String := fun _ => none
  formatter : Formatter := ⟨"en"⟩

/-- What `Compiler.buildContent` is given. -/
inductive Content where
  | schema (value : Json)
  /-- Compiled already; it is only keyed. -/
  | rendered (node : Node)

namespace Compiler

/-- The class of wrappers in test mode. -/
def testClass : String := "goat-test"

/-- The border of sections without a wrapper in test mode. -/
def testBorder : String := "1px dashed #e83e8c"

/-! ## Leaves -/

/-- The routing props that the compiler holds. -/
def ambient (c : Compiler) : List (String × Json) :=
  [("location", c.props.location), ("match", c.props.routeMatch),
    ("navigate", c.props.navigate)].filterMap fun (name, value) =>
      value.map fun v => (name, v)

/-- Add the routing props that are missing. -/
def addAmbient (c : Compiler) (props : List (String × Json)) : List (String × Json) :=
  c.ambient.foldl (fun acc field => Fields.setIfMissing acc field.1 field.2) props

mutual

/-- Inline markup as nodes; tags that a component stands in for become that
component. -/
def markupNode (c : Compiler) : Markup → Node
  | .text value => .ofText value
  | .tag name attributes children =>
    let element : Element Node := match Markup.componentFor? name with
      | some component =>
        { Element.component (c.registry.resolveOrDefault (some component)).descriptor with
          props := c.addAmbient (Markup.propsOf attributes) }
      | none => { Element.host name with props := Markup.propsOf attributes }
    .element { element with children := markupNodes c children }

def markupNodes (c : Compiler) : List Markup → List Node
  | [] => []
  | m :: ms => markupNode c m :: markupNodes c ms

end

/-- The text of a leaf in a scope: translated, then formatted. -/
def leafText (c : Compiler) (value : Json) (scope : Scope) : String :=
  let translated := match value.string? with
    | some text => ((c.translate text).map Json.string).getD value
    | none => value
  c.formatter.format translated scope.options?

/-- The node of a text. -/
def textNode (c : Compiler) (text : String) : Node :=
  if Markup.occursIn text then
    .fragment (some (Node.textKey text)) (c.markupNodes (Markup.parse text))
  else .text (some (Node.textKey text)) text

/-- The node of a leaf. -/
def leaf (c : Compiler) (value : Json) (scope : Scope) : Node :=
  c.textNode (c.leafText value scope)

/-! ## Sections -/

/-- The props of a compiled section, from the mutated section. -/
def sectionProps (c : Compiler) (d : Descriptor) (name : String)
    (mutated : List (String × Json)) : List (String × Json) :=
  let kept := Section.without (Section.handedOn mutated) d.slots
  let named := Fields.set kept "name" (.string name)
  let managed := Fields.set named "managerName"
    ((mutated.lookup "managerName").getD (.string c.props.name))
  let filled := match d.keepsRawContent, mutated.lookup "content" with
    | true, some content => Fields.set managed "content" content
    | _, _ => managed
  c.addAmbient filled

/-- The wrapping of a section, from the mutated section. -/
def wrapping (c : Compiler) (d : Descriptor) (mutated : List (String × Json)) :
    WrapperDecision :=
  let requested := (Fields.string? mutated "component").getD d.name
  let hasOwnTag := ((mutated.lookup "tag").map fun t => !t.isNull).getD false
  .decide (.ofJson? (mutated.lookup "wrapper")) d.wrapper
    (c.registry.isWrapperExcluded requested) hasOwnTag

/-- Put the test border over the style of a section. -/
def markUnwrapped (props : List (String × Json)) : List (String × Json) :=
  let style := ((props.lookup "style").filter Json.isObject).getD (.object [])
  Fields.set props "style" (deepMerge style (.object [("border", .string testBorder)]))

/-- The wrapper of a section. -/
def wrapperElement (c : Compiler) (tag name : String) (mutated : List (String × Json))
    (inner : Node) : Node :=
  let base := ClassList.empty.add (name ++ "-section")
  let marked := if c.props.test then base.add testClass else base
  let classes := (marked.extend c.props.wrapperClasses).extend
    (.ofJson? (mutated.lookup "wrapperClasses"))
  let own := Json.object [("--section-name", .string name)]
  let style := match (mutated.lookup "wrapperStyle").filter Json.isObject with
    | some extra => deepMerge own extra
    | none => own
  .element (((((Element.host tag).withKey (name ++ "-wrapper")).withClasses classes).withProp
    "style" style).append [inner])

/-- Whether the children of the compiler belong to a section. -/
def receivesChildren (c : Compiler) (mutated : List (String × Json)) : Bool :=
  match c.props.childrenIn with
  | some target => Section.name? mutated == some target
  | none => false

/-- The element of a section whose parts are compiled, with its wrapper. -/
def assemble (c : Compiler) (d : Descriptor) (name : String) (mutated : List (String × Json))
    (rendered : List (String × Node)) (children : List Node) : Node :=
  let decision := c.wrapping d mutated
  let props := c.sectionProps d name mutated
  let marked := if c.props.test && decision.tag?.isNone then markUnwrapped props else props
  let element : Element Node :=
    { key := some name, kind := .component d, props := marked
      rendered := Fields.ofList rendered, children }
  match decision.tag? with
  | some tag => c.wrapperElement tag name mutated (.element element)
  | none => .element element

/-- Compile named values, keeping their names. -/
def buildNamed (recur : Json → Scope → Compilation Node) (scope : Scope)
    (fields : List (String × Json)) : Compilation (List (String × Node)) :=
  .forEach (fun field => do
    let node ← recur field.2 scope
    pure (field.1, node)) fields

/-- The children of a section that compiles its content. -/
def sectionChildren (c : Compiler) (recur : Json → Scope → Compilation Node)
    (mutated : List (String × Json)) (scope : Scope) : Compilation (List Node) := do
  let content ← match mutated.lookup "content" with
    | some value => do
      let node ← recur value scope
      pure [node]
    | none => pure []
  let supplied := if c.receivesChildren mutated then c.props.children else []
  pure ((content ++ supplied).filter fun node => !node.isNothing)

/-- Compile a section under a name. `recur` compiles what stands inside. -/
def compileSection (c : Compiler) (recur : Json → Scope → Compilation Node)
    (fields : List (String × Json)) (name : String) (scope : Scope) : Compilation Node := do
  Compilation.visit name
  let mutated := applyMutation? fields (c.mutate name fields)
  if Section.isInactive mutated then pure .nothing
  else
    let d := (c.registry.resolveOrDefault (Fields.string? mutated "component")).descriptor
    let inner := scope.enter name (Section.handedOn mutated)
    let slots ← buildNamed recur inner (Section.present (Section.handedOn mutated) d.slots)
    let labels ← buildNamed recur inner (Section.present mutated Section.renderedFields)
    let children ←
      if d.keepsRawContent then pure [] else c.sectionChildren recur mutated inner
    pure (c.assemble d name mutated (slots ++ labels) children)

/-! ## Values -/

/-- Compile a value. `recur` compiles what stands inside. -/
def step (c : Compiler) (recur : Json → Scope → Compilation Node) (value : Json)
    (scope : Scope) : Compilation Node :=
  if value.isFalsy then .done .nothing
  else
    match value with
    | .array items => do
      let nodes ← Compilation.forEach (fun item => recur item scope) items
      pure (.ofList nodes)
    | .object fields =>
      match Section.name? fields with
      | some name => c.compileSection recur fields name scope
      | none => do
        let nodes ← Compilation.forEach (fun (key, entry) =>
          let own := Section.ofEntry key entry
          c.compileSection recur own ((Section.name? own).getD key) scope) fields
        pure (.ofList nodes)
    | other => .done (c.leaf other scope)

/-- Compile a value with a budget of nested steps. -/
def build (c : Compiler) : Nat → Json → Scope → Compilation Node
  | 0, _, _ => .exhausted
  | budget + 1, value, scope => c.step (c.build budget) value scope

/-- Key a compiled node by its name, else by its index. -/
def keyRendered (node : Node) (index : Option Nat) : Node :=
  let name := match node with
    | .element e => ((e.prop? "name").map Json.displayText).filter fun (n : String) => !n.isEmpty
    | _ => none
  match name.or (index.map toString) with
  | some key => node.keyIfMissing key
  | none => node

/-- Compile content that stands alone. -/
def buildContent (c : Compiler) (budget : Nat) (content : Content) (index : Option Nat) :
    Compilation Node :=
  match content with
  | .schema value => c.build budget value .root
  | .rendered node => .done (keyRendered node index)

/-- Compile one section that stands alone; fields without a name are compiled
like any object. -/
def buildSection (c : Compiler) (budget : Nat) (fields : List (String × Json)) :
    Compilation Node :=
  match Section.name? fields with
  | some name => c.compileSection (c.build budget) fields name .root
  | none => c.build budget (.object fields) .root

end Compiler

/-! ## Budgets -/

/-- Overrides by section name. -/
abbrev MutationMap := List (String × Json)

namespace MutationMap

/-- The hook that looks a section's name up; overrides that are no objects do not
count. -/
def hook (map : MutationMap) : MutationHook :=
  fun name _ => (map.lookup name).bind Json.object?

/-- A bound on how many values can be made by laying some parts over each other in
up to so many layers. -/
def layerings (parts : Nat) : Nat → Nat
  | 0 => 0
  | layers + 1 => parts * (layerings parts layers + 1)

/-- A budget for compiling a schema under a map of overrides. Without overrides each
nested step goes down into the schema. Otherwise each step goes to a value made of
parts of the schema and of the overrides, and when one such value comes inside
itself, compiling never ends. -/
def budget (map : MutationMap) (schema : Json) : Nat :=
  match map with
  | [] => schema.depth + 1
  | _ =>
    let overrides := Json.object map
    layerings (schema.parts.length + overrides.parts.length)
      (max schema.depth overrides.depth) + 1

end MutationMap

/-- Compile a schema without overrides. -/
def Compiler.compile (c : Compiler) (schema : Json) : Node :=
  (c.build (MutationMap.budget [] schema) schema .root).value?.getD .nothing

end ViewSchema
