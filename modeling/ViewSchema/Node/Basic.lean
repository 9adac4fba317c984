import ViewSchema.Breakpoint
import ViewSchema.ClassList
import ViewSchema.Component.Descriptor
import ViewSchema.Digest.Blake3

/-!
# Nodes

The tree that a schema compiles to. An element is a plain tag or a component;
components remain in the tree until it is expanded.

Main definitions:

- `Element` is generic in its children, `Node` ties the knot.
- `Node.textContent` concatenates the texts of a tree.
- `Node.findElement?` and `Node.ancestors?` search a tree in document order.
-/

namespace ViewSchema

/-- What an element is. -/
inductive ElementKind where
  /-- A plain tag. -/
  | host (tag : String)
  /-- A component, rendered by its descriptor. -/
  | component (descriptor : Descriptor)
deriving DecidableEq, Repr

/-- Tag of a host element, name of a component. -/
def ElementKind.tag : ElementKind → String
  | host tag => tag
  | component d => d.name

/-- An element with its props, its rendered props and its children. -/
structure Element (child : Type) where
  key : Option String
  kind : ElementKind
  props : List (String × Json)
  /-- Props that are trees already, such as a label. -/
  rendered : List (String × child)
  children : List child
deriving Repr

/-- A compiled tree. -/
inductive Node where
  /-- Renders as nothing. -/
  | nothing
  | text (key : Option String) (value : String)
  | fragment (key : Option String) (children : List Node)
  | element (element : Element Node)
deriving Repr, Inhabited

namespace Element

variable {α : Type}

/-- An element of a kind without anything else. -/
def ofKind (kind : ElementKind) : Element α :=
  { key := none, kind, props := [], rendered := [], children := [] }

/-- A plain tag. -/
def host (tag : String) : Element α := ofKind (.host tag)

/-- A component. -/
def component (d : Descriptor) : Element α := ofKind (.component d)

def tag (e : Element α) : String := e.kind.tag

def withKey (e : Element α) (key : String) : Element α := { e with key := some key }

def withProp (e : Element α) (name : String) (value : Json) : Element α :=
  { e with props := Fields.set e.props name value }

/-- Set the class list, unless it is empty. -/
def withClasses (e : Element α) (classes : ClassList) : Element α :=
  if classes.isEmpty then e else e.withProp "classes" classes.toJson

/-- Add children at the end. -/
def append (e : Element α) (children : List α) : Element α :=
  { e with children := e.children ++ children }

def prop? (e : Element α) (name : String) : Option Json := e.props.lookup name

def string? (e : Element α) (name : String) : Option String := Fields.string? e.props name

/-- The class list of the prop `classes`. -/
def classes (e : Element α) : ClassList := ClassList.ofJson? (e.prop? "classes")

def rendered? (e : Element α) (name : String) : Option α := e.rendered.lookup name

end Element

namespace Node

/-- A text without a key. -/
def ofText (value : String) : Node := text none value

/-- A fragment without a key. -/
def ofList (children : List Node) : Node := fragment none children

def isNothing : Node → Bool
  | nothing => true
  | _ => false

def key? : Node → Option String
  | nothing => none
  | text key _ => key
  | fragment key _ => key
  | element e => e.key

/-- Give a node a key, unless it has one. -/
def keyIfMissing (key : String) : Node → Node
  | nothing => nothing
  | text none value => text (some key) value
  | fragment none children => fragment (some key) children
  | element e => if e.key.isSome then element e else element (e.withKey key)
  | node => node

/-- The key of a text: the beginning of its digest. -/
def textKey (value : String) : String :=
  "t-" ++ String.ofList ((Blake3.ofText value).toList.take 12)

mutual

/-- The texts of a tree, concatenated. Rendered props do not count. -/
def textContent : Node → String
  | nothing => ""
  | text _ value => value
  | fragment _ children => textContents children
  | element e => textContents e.children

def textContents : List Node → String
  | [] => ""
  | c :: cs => textContent c ++ textContents cs

end

mutual

/-- The first element with a tag, outer ones before inner ones. -/
def findElement? (tag : String) : Node → Option (Element Node)
  | nothing => none
  | text _ _ => none
  | fragment _ children => findAmong? tag children
  | element e => if e.tag = tag then some e else findAmong? tag e.children

def findAmong? (tag : String) : List Node → Option (Element Node)
  | [] => none
  | c :: cs => (findElement? tag c).or (findAmong? tag cs)

end

mutual

/-- The tags around the first text with a value, innermost first. -/
def ancestors? (value : String) : Node → Option (List String)
  | nothing => none
  | text _ v => if v = value then some [] else none
  | fragment _ children => ancestorsAmong? value children
  | element e => (ancestorsAmong? value e.children).map (· ++ [e.tag])

def ancestorsAmong? (value : String) : List Node → Option (List String)
  | [] => none
  | c :: cs => (ancestors? value c).or (ancestorsAmong? value cs)

end

end Node

/-- The children of an element as one node. -/
def Element.childrenNode (e : Element Node) : Node :=
  match e.children with
  | [] => .nothing
  | [child] => child
  | children => .ofList children

end ViewSchema
