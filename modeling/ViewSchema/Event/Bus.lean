import ViewSchema.Event.Basic

/-!
# The event bus

Subscriptions by event name and subscriber, and delivery to all subscribers of a
name. A delivery goes to the subscribers of the moment in which it starts; what
they do to the bus on the way changes later deliveries only. A subscriber that
fails does no more, and the others are served all the same.

Main definitions:

- `Reaction` is what a subscriber does when an event reaches it.
- `EventBus.subscribe`, `EventBus.unsubscribe` change the subscriptions; both are
  described by `EventBus.subscribers`.
- `EventBus.dispatch` delivers an event and everything that subscribers dispatch
  on the way; `EventBus.run` lets a client use a bus from the start.
-/

namespace ViewSchema

/-- What a subscriber does when it is called, step by step. Subscribers share a
memory, which stands for all that they keep from one call to the next. -/
inductive Reaction (σ : Type) where
  | done
  /-- Fail: nothing else is done. -/
  | fail
  /-- Look at the memory and at who is subscribed to which event. -/
  | look (next : σ → (String → List String) → Reaction σ)
  | keep (memory : σ) (next : Reaction σ)
  | subscribe (event id : String) (callback : Event → Reaction σ) (next : Reaction σ)
  /-- Give up a subscription, and learn whether there was one. -/
  | unsubscribe (event id : String) (next : Bool → Reaction σ)
  | dispatch (event : String) (payload : Event) (next : Reaction σ)

/-- What a subscriber does with an event that reaches it. -/
abbrev Callback (σ : Type) := Event → Reaction σ

/-- The subscribers of an event, in order. -/
abbrev Subscribers (σ : Type) := List (String × Callback σ)

structure EventBus (σ : Type) where
  events : List (String × Subscribers σ)

/-- An event that reached a subscriber. -/
structure Delivery where
  event : String
  id : String
  payload : Event
deriving Repr

/-- What happens on a bus. A dispatch is told from others by the moment in which it
started: how much had happened before. -/
inductive Happening (σ : Type) where
  | subscribed (event id : String) (callback : Callback σ)
  | unsubscribed (event id : String)
  | started (event : String) (payload : Event)
  | called (start : Nat) (delivery : Delivery) (callback : Callback σ)
  | returned (start : Nat)

variable {σ : Type}

namespace EventBus

/-- The bus without subscriptions. -/
def empty : EventBus σ := ⟨[]⟩

instance : Inhabited (EventBus σ) := ⟨empty⟩

/-- The subscribers of an event; without subscriptions there are none. -/
def subscribers (bus : EventBus σ) (event : String) : Subscribers σ :=
  (bus.events.lookup event).getD []

/-- Who is subscribed to an event, in order. -/
def ids (bus : EventBus σ) (event : String) : List String := Fields.names (bus.subscribers event)

/-- Subscribe to an event. A subscriber that is there keeps its place. -/
def subscribe (bus : EventBus σ) (event id : String) (callback : Callback σ) : EventBus σ :=
  ⟨Fields.set bus.events event (Fields.set (bus.subscribers event) id callback)⟩

def isSubscribed (bus : EventBus σ) (event id : String) : Bool := (bus.ids event).contains id

/-- Give up a subscription. The last one takes its event with it. -/
def unsubscribe (bus : EventBus σ) (event id : String) : EventBus σ :=
  match (bus.subscribers event).filter fun s => s.1 != id with
  | [] => ⟨bus.events.filter fun entry => entry.1 != event⟩
  | first :: rest => ⟨Fields.set bus.events event (first :: rest)⟩

def subscriberCount (bus : EventBus σ) (event : String) : Nat := (bus.subscribers event).length

@[simp] theorem subscribers_empty (event : String) :
    (empty : EventBus σ).subscribers event = [] := rfl

/-- Subscribing changes the subscribers of its event alone. -/
theorem subscribers_subscribe (bus : EventBus σ) (event id other : String)
    (callback : Callback σ) :
    (bus.subscribe event id callback).subscribers other =
      if other = event then Fields.set (bus.subscribers event) id callback
      else bus.subscribers other := by
  unfold subscribe subscribers
  rw [Fields.lookup_set]
  split <;> rfl

/-- Unsubscribing takes one subscriber from its event. -/
theorem subscribers_unsubscribe (bus : EventBus σ) (event id other : String) :
    (bus.unsubscribe event id).subscribers other =
      if other = event then (bus.subscribers event).filter fun s => s.1 != id
      else bus.subscribers other := by
  unfold unsubscribe
  split
  · rename_i hnone
    unfold subscribers at hnone ⊢
    rw [Fields.lookup_filter bus.events (fun name => name != event) other, hnone]
    by_cases hother : other = event <;> simp [hother]
  · rename_i first rest hkept
    rw [hkept]
    unfold subscribers
    rw [Fields.lookup_set]
    split <;> rfl

end EventBus

/-! ## Delivery -/

/-- A bus in use: its subscriptions, the memory of its subscribers, and all that has
happened on it. -/
structure Scene (σ : Type) where
  bus : EventBus σ
  memory : σ
  history : List (Happening σ)

namespace Scene

/-- A bus on which nothing has happened. -/
def start (memory : σ) : Scene σ := ⟨.empty, memory, []⟩

def note (scene : Scene σ) (happening : Happening σ) : Scene σ :=
  { scene with history := scene.history ++ [happening] }

def subscribe (scene : Scene σ) (event id : String) (callback : Callback σ) : Scene σ :=
  { scene with bus := scene.bus.subscribe event id callback }.note (.subscribed event id callback)

def unsubscribe (scene : Scene σ) (event id : String) : Scene σ :=
  { scene with bus := scene.bus.unsubscribe event id }.note (.unsubscribed event id)

/-- The events that have reached subscribers, in order. -/
def deliveries (scene : Scene σ) : List Delivery :=
  scene.history.filterMap fun
    | .called _ delivery _ => some delivery
    | _ => none

end Scene

/-- How something that is done on a bus ends. -/
inductive Ending where
  | returned
  | failed
  /-- Given up, because deliveries are nested deeper than allowed. -/
  | cut
deriving DecidableEq, Repr

/-- What is done on a bus: what it leads to, and how it ends. -/
structure BusRun (σ : Type) where
  scene : Scene σ
  ending : Ending

namespace BusRun

/-- Go on, unless the run has failed or was cut. -/
def andThen (run : BusRun σ) (next : Scene σ → BusRun σ) : BusRun σ :=
  match run.ending with
  | .returned => next run.scene
  | _ => run

/-- Go on after a failure, too. -/
def isolated (run : BusRun σ) : BusRun σ :=
  match run.ending with
  | .failed => ⟨run.scene, .returned⟩
  | _ => run

@[simp] theorem scene_isolated (run : BusRun σ) : run.isolated.scene = run.scene := by
  unfold isolated
  split <;> rfl

end BusRun

namespace EventBus

/-- Do what a reaction asks for, up to its failure. -/
def react (dispatch : Scene σ → String → Event → BusRun σ) : Reaction σ → Scene σ → BusRun σ
  | .done, scene => ⟨scene, .returned⟩
  | .fail, scene => ⟨scene, .failed⟩
  | .look next, scene => react dispatch (next scene.memory scene.bus.ids) scene
  | .keep memory next, scene => react dispatch next { scene with memory }
  | .subscribe event id callback next, scene =>
    react dispatch next (scene.subscribe event id callback)
  | .unsubscribe event id next, scene =>
    react dispatch (next (scene.bus.isSubscribed event id)) (scene.unsubscribe event id)
  | .dispatch event payload next, scene =>
    (dispatch scene event payload).andThen (react dispatch next)

/-- Call the subscribers that a dispatch still has to call, one after the other. -/
def callAll (dispatch : Scene σ → String → Event → BusRun σ) (start : Nat) (event : String)
    (payload : Event) : Subscribers σ → Scene σ → BusRun σ
  | [], scene => ⟨scene, .returned⟩
  | (id, callback) :: rest, scene =>
    (react dispatch (callback payload)
        (scene.note (.called start ⟨event, id, payload⟩ callback))).isolated.andThen
      (callAll dispatch start event payload rest)

/-- Deliver an event to those who are subscribed to it now. Deliveries may be nested
`depth` deep. -/
def dispatch : (depth : Nat) → Scene σ → String → Event → BusRun σ
  | 0, scene, _, _ => ⟨scene, .cut⟩
  | depth + 1, scene, event, payload =>
    let start := scene.history.length
    (callAll (dispatch depth) start event payload (scene.bus.subscribers event)
        (scene.note (.started event payload))).andThen fun scene =>
      ⟨scene.note (.returned start), .returned⟩

/-- What a client does with a bus, from the start. -/
def run (depth : Nat) (memory : σ) (client : Reaction σ) : BusRun σ :=
  react (dispatch depth) client (.start memory)

/-- A depth for deliveries whose subscribers subscribe none that do anything: the
subscribers that do something only become fewer, and deliveries that nest without
such a loss never end. -/
def nestingDepth (bus : EventBus σ) : Nat :=
  let subscribers := bus.events.foldl (fun n event => n + event.2.length) 0
  (subscribers + 2) * (subscribers + 2)

end EventBus

end ViewSchema
