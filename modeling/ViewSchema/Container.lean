import ViewSchema.Component.Render
import ViewSchema.Event.Basic
import ViewSchema.Responsive

/-!
# Responsive containers

A container knows the breakpoint of the size that was applied to it last. The
first size is applied when it is mounted; observed sizes are applied once no
other one has come for a while, so that a burst of sizes counts as its last one.
Each applied size is announced, and the first one makes the container ready.

Main definitions:

- `Container` is the state, with a clock of its own and at most one size that
  waits.
- `Container.step` takes one `ContainerStep` and lists the notices that it gives
  rise to; `Container.run` takes several.
-/

namespace ViewSchema

structure ContainerOptions where
  name : String
  table : BreakpointTable
  classes : ClassList
  /-- Further classes while a breakpoint is active. -/
  breakpointClasses : List (String × ClassList)
  /-- For how long no other size must come before one is applied. -/
  delay : Nat
deriving Repr

namespace ContainerOptions

/-- How long sizes wait where no delay is given, in milliseconds. -/
def standardDelay : Nat := 200

/-- Options with nothing but a name. -/
def named (name : String) : ContainerOptions :=
  { name, table := .standard, classes := .empty, breakpointClasses := [],
    delay := standardDelay }

/-- Classes that depend on the size: none of them outlives a new size. -/
def sizeClasses (options : ContainerOptions) : List String :=
  options.table.names ++ options.breakpointClasses.flatMap (fun entry => entry.2.tokens)
    ++ [Orientation.landscape.name, Orientation.portrait.name]

/-- What a size means under these options. -/
def infoOf (options : ContainerOptions) (size : Size) : ResizeInfo :=
  .ofSize options.name ((options.table.resolveOrFirst? size.width).getD "") size

/-- The class of every container that has a size. -/
def animateClass : String := "animate"

/-- Classes with those of a size in place of those of earlier sizes. -/
def classesAt (options : ContainerOptions) (info : ResizeInfo) (classes : ClassList) :
    ClassList :=
  let kept := options.sizeClasses.foldl ClassList.remove classes
  let named := if info.breakpoint.isEmpty then kept else kept.add info.breakpoint
  let shaped := (named.add animateClass).add info.orientation.name
  match options.breakpointClasses.lookup info.breakpoint with
  | some extra => shaped.extend extra
  | none => shaped

end ContainerOptions

/-- What a container tells others when a size is applied. -/
inductive ContainerNotice where
  | callback (info : ResizeInfo)
  | publish (publication : Publication)
deriving Repr

structure Container where
  options : ContainerOptions
  classes : ClassList
  /-- The size applied last. -/
  info : Option ResizeInfo
  /-- How many sizes have been applied. -/
  updates : Nat
  readySent : Bool
  unmounted : Bool
  /-- Whether there are timers; without them observed sizes are applied at once. -/
  timed : Bool
  now : Nat
  /-- The size that waits, and when it is due. -/
  pending : Option (Size × Nat)
  /-- The sensor that is listened to. -/
  sensor : Option Nat
  /-- How many sensors there have been. -/
  sensors : Nat
deriving Repr

/-- What can happen to a container. Sensors are numbered from zero. -/
inductive ContainerStep where
  | mount (size : Size)
  | observe (size : Size)
  /-- Listen to a new sensor. -/
  | attach
  | send (sensor : Nat) (size : Size)
  | close (sensor : Nat)
  | unmount
  | sleep (duration : Nat)
deriving DecidableEq, Repr

namespace Container

/-- A container without a size. -/
def start (options : ContainerOptions) (timed : Bool) : Container :=
  { options
    classes := (ClassList.empty.add options.name).extend options.classes
    info := none
    updates := 0
    readySent := false
    unmounted := false
    timed
    now := 0
    pending := none
    sensor := none
    sensors := 0 }

def isMeasured (c : Container) : Bool := c.info.isSome

def breakpoint? (c : Container) : Option String := c.info.map ResizeInfo.breakpoint

/-- What is announced when a size is applied. -/
def announcements (c : Container) (info : ResizeInfo) : List ContainerNotice :=
  let name := c.options.name
  [.callback info, .publish ⟨Event.topic "resize" name, .resize info⟩]
    ++ if c.readySent then [] else [.publish ⟨Event.topic "ready" name, .ready name⟩]

/-- Apply a size, unless the container is unmounted. -/
def apply (c : Container) (size : Size) : Container × List ContainerNotice :=
  if c.unmounted then (c, [])
  else
    let info := c.options.infoOf size
    ({ c with
      classes := c.options.classesAt info c.classes
      info := some info
      updates := c.updates + 1
      readySent := true }, c.announcements info)

/-- Take note of a size: it takes the place of one that waits. -/
def observe (c : Container) (size : Size) : Container × List ContainerNotice :=
  if c.unmounted then (c, [])
  else if c.timed then ({ c with pending := some (size, c.now + c.options.delay) }, [])
  else c.apply size

/-- Apply the size that waits if it is due. -/
def fire (c : Container) : Container × List ContainerNotice :=
  match c.pending with
  | some (size, due) => if due ≤ c.now then { c with pending := none }.apply size else (c, [])
  | none => (c, [])

/-- Listen to a new sensor instead of the one before. -/
def attach (c : Container) : Container :=
  { c with
    sensor := if c.timed then some c.sensors else none
    sensors := c.sensors + 1 }

/-- Whether a size sent by a sensor is heard. -/
def listens (c : Container) (sensor : Nat) : Bool := c.sensor == some sensor

/-- Drop the size that waits and the sensor; no size is applied any more. -/
def unmount (c : Container) : Container :=
  { c with unmounted := true, pending := none, sensor := none }

/-- What happens at once. -/
def act (c : Container) : ContainerStep → Container × List ContainerNotice
  | .mount size => c.apply size
  | .observe size => c.observe size
  | .attach => (c.attach, [])
  | .send sensor size => if c.listens sensor then c.observe size else (c, [])
  | .close sensor => (if c.listens sensor then { c with sensor := none } else c, [])
  | .unmount => (c.unmount, [])
  | .sleep duration => ({ c with now := c.now + duration }, [])

/-- One step, and the timer that is due after it. -/
def step (c : Container) (s : ContainerStep) : Container × List ContainerNotice :=
  let (acted, before) := c.act s
  let (fired, after) := acted.fire
  (fired, before ++ after)

/-- Several steps, with all notices in order. -/
def run (c : Container) : List ContainerStep → Container × List ContainerNotice
  | [] => (c, [])
  | s :: rest =>
    let (next, before) := c.step s
    let (last, after) := next.run rest
    (last, before ++ after)

/-! ## Rendering -/

/-- The content in the element of the container, or a placeholder while it has no
size. -/
def render (c : Container) (content : Node) : Node :=
  match c.info with
  | none => Render.loadingPlaceholder c.options.name
  | some info =>
    .element ((((Element.host "div").withClasses c.classes).withProp "data-breakpoint"
      (.string info.breakpoint)).append [content])

/-- The schema that a container shows at its breakpoint, if it has one. -/
def viewAt? (c : Container) (view : Json) : Option Json :=
  c.breakpoint?.map fun breakpoint => applyBreakpoint c.options.table breakpoint view

@[simp] theorem info_start (options : ContainerOptions) (timed : Bool) :
    (start options timed).info = none := rfl

@[simp] theorem run_nil (c : Container) : c.run [] = (c, []) := rfl

theorem run_cons (c : Container) (s : ContainerStep) (rest : List ContainerStep) :
    c.run (s :: rest) =
      (((c.step s).1.run rest).1, (c.step s).2 ++ ((c.step s).1.run rest).2) := rfl

end Container

end ViewSchema
