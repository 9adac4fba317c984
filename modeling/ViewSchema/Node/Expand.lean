import ViewSchema.Component.Render

/-!
# Expansion

Running the renderers until only plain tags, texts and fragments are left. A
renderer may put components of its element's children into its result, so
expansion goes level by level: each level renders the outermost components, and
there are as many levels as components are nested.
-/

namespace ViewSchema

namespace Node

mutual

/-- How deep components are nested in a tree, rendered props included. -/
def componentDepth : Node → Nat
  | nothing => 0
  | text _ _ => 0
  | fragment _ children => componentDepths children
  | element e =>
    match e.kind with
    | .host _ => componentDepths e.children
    | .component _ => 1 + max (componentDepths e.children) (renderedDepths e.rendered)

def componentDepths : List Node → Nat
  | [] => 0
  | c :: cs => max (componentDepth c) (componentDepths cs)

def renderedDepths : List (String × Node) → Nat
  | [] => 0
  | (_, c) :: cs => max (componentDepth c) (renderedDepths cs)

end

mutual

/-- Replace the outermost components of a tree. -/
def mapComponents (f : Descriptor → Element Node → Node) : Node → Node
  | nothing => nothing
  | text key value => text key value
  | fragment key children => fragment key (mapComponentsIn f children)
  | element e =>
    match e.kind with
    | .host _ => element { e with children := mapComponentsIn f e.children }
    | .component d => f d e

def mapComponentsIn (f : Descriptor → Element Node → Node) : List Node → List Node
  | [] => []
  | c :: cs => mapComponents f c :: mapComponentsIn f cs

end

/-- A rendered component gets the key of its element, unless it has one. -/
def keyedAs (key : Option String) (node : Node) : Node :=
  match key with
  | some k => node.keyIfMissing k
  | none => node

/-- Expand a number of levels of components; deeper ones stay. -/
def expandLevels (ctx : RenderContext) : Nat → Node → Node
  | 0, node => node
  | levels + 1, node =>
    mapComponents
      (fun d e => keyedAs e.key (expandLevels ctx levels (d.renderer.render ctx e))) node

/-- Expand all components of a tree. -/
def expand (ctx : RenderContext) (node : Node) : Node :=
  expandLevels ctx (node.componentDepth + 1) node

end Node

end ViewSchema
