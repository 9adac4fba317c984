import ViewSchema.Breakpoint

/-!
# Events

What is published under event names: sizes of containers, changes of stored
values, navigation, and free values.
-/

namespace ViewSchema

/-- An applied size, with what it means for a container. -/
structure ResizeInfo where
  name : String
  breakpoint : String
  orientation : Orientation
  width : Nat
  height : Nat
deriving DecidableEq, Repr

/-- A size as a container of that name sees it at a breakpoint. -/
def ResizeInfo.ofSize (name breakpoint : String) (size : Size) : ResizeInfo :=
  { name, breakpoint, orientation := .ofSize size, width := size.width, height := size.height }

def ResizeInfo.toJson (info : ResizeInfo) : Json :=
  .object
    [("name", .string info.name), ("breakpoint", .string info.breakpoint),
      ("orientation", .string info.orientation.name), ("width", .int info.width),
      ("height", .int info.height)]

inductive Event where
  | resize (info : ResizeInfo)
  | ready (name : String)
  /-- A stored value changed; a removed one has no value. -/
  | global (key : String) (value : Option Json)
  | location (pathname : String) (params : List (String × Json))
  | update (value : Json)
  | custom (value : Json)
deriving Repr

namespace Event

/-- The name under which an event of a subject is published. -/
def topic (verb subject : String) : String := verb ++ "." ++ subject

def kind : Event → String
  | resize _ => "resize"
  | ready _ => "ready"
  | global _ _ => "global"
  | location _ _ => "location"
  | update _ => "update"
  | custom _ => "custom"

def payload : Event → Json
  | resize info => info.toJson
  | ready name => .object [("name", .string name)]
  | global key value => .object [("key", .string key), ("value", value.getD .null)]
  | location pathname params =>
    .object [("pathname", .string pathname), ("params", .object params)]
  | update value => value
  | custom value => value

def toJson (event : Event) : Json :=
  .object [("type", .string event.kind), ("payload", event.payload)]

end Event

/-- An event that is published under a topic. -/
structure Publication where
  topic : String
  event : Event
deriving Repr

end ViewSchema
