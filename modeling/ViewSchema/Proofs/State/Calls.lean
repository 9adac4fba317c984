import ViewSchema.State.Store

/-!
# Calls on the store

The store under a sequence of calls, during each of which the file may be out of reach for a
while, and what successful calls mean for local storage.

Main definitions:

- `StoreCall` and `Store.perform`: one call and whether it succeeds.
- `Store.run`: several calls, each with what goes wrong during it.
- `StoreCall.lastChange?`: what calls leave in local storage under a key.
-/

namespace ViewSchema

/-- A call on the store. -/
inductive StoreCall where
  | get (key : String)
  | set (key : String) (value : Json) (options : StoreOptions)
  | remove (key : String) (options : StoreOptions)
  | seed (initial : List (String × Json))

namespace StoreCall

/-- What a successful call changes in local storage: a key and its new value, if it has one. -/
def change? : StoreCall → Option (String × Option Json)
  | set key value options => if options.storage = some .local then some (key, some value) else none
  | remove key options => if options.storage = some .session then none else some (key, none)
  | get _ | seed _ => none

/-- The last change that successful calls make to a key in local storage. -/
def lastChange? (key : String) (calls : List StoreCall) : Option (Option Json) :=
  (calls.filterMap change?).reverse.lookup key

variable {key other : String} {value : Option Json} {call : StoreCall} {calls : List StoreCall}

/-- A call that changes nothing in local storage leaves the last change to those after it. -/
theorem lastChange?_cons_of_none (h : call.change? = none) :
    lastChange? key (call :: calls) = lastChange? key calls := by
  rw [lastChange?, List.filterMap_cons_none h]
  rfl

/-- The change of a first call is the last one of its key where no later call changes it. -/
theorem lastChange?_cons_of_some (h : call.change? = some (other, value)) :
    lastChange? key (call :: calls) =
      (lastChange? key calls).or (if key = other then some value else none) := by
  rw [lastChange?, List.filterMap_cons_some h, List.reverse_cons, List.lookup_append,
    Fields.lookup_cons]
  rfl

end StoreCall

/-- What goes wrong with the file while a call runs. -/
inductive StorageFault where
  /-- The file can be neither read nor written. -/
  | unreadable
  /-- The file can be read but not written. -/
  | unwritable

/-- A directory while something is wrong with the file. Where writing fails for a while, what
stands in the way anyhow still does. -/
def StateDirectory.under (d : StateDirectory) : Option StorageFault → StateDirectory
  | none => d
  | some .unreadable => { d with obstacle := some .fileIsDirectory }
  | some .unwritable => { d with obstacle := d.obstacle.or (some .readOnly) }

/-- A call and what goes wrong during it. -/
structure StoreStep where
  call : StoreCall
  fault : Option StorageFault := none

namespace Store

/-- The store after a call, and whether the call succeeded. -/
def perform (s : Store) : StoreCall → Store × Bool
  | .get key => ((s.get key).1, (s.get key).2.isOk)
  | .set key value options => ((s.set key value options).1, (s.set key value options).2.isOk)
  | .remove key options => ((s.remove key options).1, (s.remove key options).2.isOk)
  | .seed initial => ((s.seed initial).1, (s.seed initial).2.isOk)

/-- The store after a call under a fault that goes away with the call. -/
def step (s : Store) (step : StoreStep) : Store × Bool :=
  let (after, succeeded) :=
    ({ s with directory := s.directory.under step.fault } : Store).perform step.call
  ({ after with directory := { after.directory with obstacle := s.directory.obstacle } },
    succeeded)

/-- The store after several steps, and the calls that succeeded, in order. -/
def run (s : Store) : List StoreStep → Store × List StoreCall
  | [] => (s, [])
  | step :: rest =>
    let (next, succeeded) := s.step step
    let (last, calls) := next.run rest
    (last, if succeeded then step.call :: calls else calls)

end Store

end ViewSchema
