import ViewSchema.Event.Basic
import ViewSchema.Json.Reader
import ViewSchema.Json.Text
import ViewSchema.State.Directory

/-!
# The global store

Values by key, in three layers: memory, session storage, which lasts as long as
the process, and local storage, which is a file. A value missing in memory is
taken from session storage, else from local storage. Changes are announced.

Main definitions:

- `Store.get`, `Store.set`, `Store.remove`, `Store.seed` with the store after
  them; an error leaves stored values as they were.
- `Store.opened` is the store of a new process on a directory.
-/

namespace ViewSchema

/-- Where a value is kept besides memory. -/
inductive StorageKind where
  | local
  | session
deriving DecidableEq, Repr

structure StoreOptions where
  /-- The storage that a set value is put into. On removal the only storage
  that loses the value; without it both do. -/
  storage : Option StorageKind
  /-- Change without an announcement. -/
  silent : Bool
deriving DecidableEq, Repr

namespace StoreOptions

/-- Announced changes, put into a storage or not. -/
def announced (storage : Option StorageKind) : StoreOptions := ⟨storage, false⟩

end StoreOptions

/-- The file of local storage cannot be read or written. -/
inductive StorageError where
  | unreadable
  | unwritable
deriving DecidableEq, Repr

structure Store where
  directory : StateDirectory
  memory : List (String × Json)
  session : List (String × Json)
  /-- Local storage, once it has been read. -/
  saved : Option (List (String × Json))
deriving Repr

namespace Store

/-- The store of a new process. -/
def opened (directory : StateDirectory) : Store := ⟨directory, [], [], none⟩

/-- The key of a value in a storage. -/
def storageKey (key : String) : String := "goat:" ++ key

/-- What a file of local storage holds: an object, else nothing. -/
def savedFields (text : Option String) : List (String × Json) :=
  ((text.bind Json.parse?).bind Json.object?).getD []

/-- Local storage, which is read when it is needed for the first time. -/
def load (s : Store) : Store × Except StorageError (List (String × Json)) :=
  match s.saved with
  | some fields => (s, .ok fields)
  | none =>
    match s.directory.read? with
    | some text => ({ s with saved := some (savedFields text) }, .ok (savedFields text))
    | none => (s, .error .unreadable)

/-- Write local storage; it changes only if the file can be written. -/
def save (s : Store) (fields : List (String × Json)) : Store × Except StorageError Unit :=
  match s.directory.write (Json.object fields).pretty with
  | (directory, true) => ({ s with directory, saved := some fields }, .ok ())
  | (directory, false) => ({ s with directory }, .error .unwritable)

/-- The value of a storage: of the session, else of the file. -/
def stored (s : Store) (key : String) : Store × Except StorageError (Option Json) :=
  match s.session.lookup (storageKey key) with
  | some value => (s, .ok (some value))
  | none =>
    match s.load with
    | (s, .ok fields) => (s, .ok (fields.lookup (storageKey key)))
    | (s, .error e) => (s, .error e)

/-- Put a value into memory. -/
def remember (s : Store) (key : String) (value : Json) : Store :=
  { s with memory := Fields.set s.memory key value }

/-- The value of a key. A value found in a storage is remembered. -/
def get (s : Store) (key : String) : Store × Except StorageError (Option Json) :=
  match s.memory.lookup key with
  | some value => (s, .ok (some value))
  | none =>
    match s.stored key with
    | (s, .ok (some value)) => (s.remember key value, .ok (some value))
    | (s, .ok none) => (s, .ok none)
    | (s, .error e) => (s, .error e)

/-- The announcement of a change. -/
def announcement (options : StoreOptions) (key : String) (value : Option Json) :
    List Publication :=
  if options.silent then [] else [⟨Event.topic "global" key, .global key value⟩]

/-- Put a value into a storage. -/
def putStored (s : Store) (key : String) (value : Json) (storage : Option StorageKind) :
    Store × Except StorageError Unit :=
  match storage with
  | none => (s, .ok ())
  | some .session =>
    ({ s with session := Fields.set s.session (storageKey key) value }, .ok ())
  | some .local =>
    match s.load with
    | (s, .ok fields) => s.save (Fields.set fields (storageKey key) value)
    | (s, .error e) => (s, .error e)

/-- Set a value: in its storage first, then in memory. -/
def set (s : Store) (key : String) (value : Json) (options : StoreOptions) :
    Store × Except StorageError (List Publication) :=
  match s.putStored key value options.storage with
  | (s, .ok ()) => (s.remember key value, .ok (announcement options key (some value)))
  | (s, .error e) => (s, .error e)

/-- Remove a value from local storage, if it is there. -/
def erase (s : Store) (key : String) : Store × Except StorageError Unit :=
  match s.load with
  | (s, .ok fields) =>
    if (fields.lookup (storageKey key)).isSome then
      s.save (Fields.swapRemove fields (storageKey key))
    else (s, .ok ())
  | (s, .error e) => (s, .error e)

/-- Forget a value in the session and in memory. -/
def forget (s : Store) (key : String) (storage : Option StorageKind) : Store :=
  { s with
    session :=
      if storage = some .local then s.session else Fields.swapRemove s.session (storageKey key)
    memory := Fields.swapRemove s.memory key }

/-- Remove a value: from memory, and from one storage or both. -/
def remove (s : Store) (key : String) (options : StoreOptions) :
    Store × Except StorageError (List Publication) :=
  let (s, erased) := if options.storage = some .session then (s, .ok ()) else s.erase key
  match erased with
  | .ok () => (s.forget key options.storage, .ok (announcement options key none))
  | .error e => (s, .error e)

/-- Fill memory with initial values; a value in a storage goes before the initial
one. -/
def seed (s : Store) : List (String × Json) → Store × Except StorageError Unit
  | [] => (s, .ok ())
  | (key, value) :: rest =>
    match s.stored key with
    | (s, .ok found) => (s.remember key (found.getD value)).seed rest
    | (s, .error e) => (s, .error e)

/-- The keys in memory, sorted. -/
def keys (s : Store) : List String := (Fields.names s.memory).mergeSort fun a b => a ≤ b

/-- Memory as an object. -/
def snapshot (s : Store) : Json := .object s.memory

/-- The store after the process has ended and another one has begun. -/
def reopen (s : Store) : Store := opened s.directory

@[simp] theorem memory_opened (d : StateDirectory) : (opened d).memory = [] := rfl

@[simp] theorem session_opened (d : StateDirectory) : (opened d).session = [] := rfl

@[simp] theorem directory_reopen (s : Store) : s.reopen.directory = s.directory := rfl

/-- A remembered value is found. -/
theorem lookup_memory_remember (s : Store) (key other : String) (value : Json) :
    (s.remember key value).memory.lookup other =
      if other = key then some value else s.memory.lookup other :=
  Fields.lookup_set s.memory key other value

end Store

end ViewSchema
