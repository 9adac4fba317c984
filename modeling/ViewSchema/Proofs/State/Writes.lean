import ViewSchema.Proofs.State.Transparency

/-!
# Writes

Setting and removing are one operation: a part on the storages, which may fail, and after it a
part that puts the value into memory or forgets it.  A write that fails may leave an unfinished
file beside the file of a store, which no call ever looks at.

Main results:

- Definition `Store.write`: the operation behind both calls, as theorem `Store.perform_write`
  says.
- Theorem `Store.writeStored_cases`: what a write does to the storages.
- Theorems `Store.tidy_perform` and `Store.answers_tidied`: an unfinished file has no part in any
  call, nor in any run.
-/

namespace ViewSchema

/-! ## Writing -/

/-- The key that a call writes, its new value, if it has one, and the options. -/
def StoreCall.write? : StoreCall → Option (String × Option Json × StoreOptions)
  | set key value options => some (key, some value, options)
  | remove key options => some (key, none, options)
  | get _ | seed _ => none

namespace Store

/-- The part of a write that can fail. -/
def writeStored (s : Store) (key : String) (value : Option Json) (options : StoreOptions) :
    Store × Except StorageError Unit :=
  match value with
  | some value => s.putStored key value options.storage
  | none => if options.storage = some .session then (s, .ok ()) else s.erase key

/-- The rest of a write. -/
def writeMemory (s : Store) (key : String) (value : Option Json) (options : StoreOptions) :
    Store :=
  match value with
  | some value => s.remember key value
  | none => s.forget key options.storage

/-- Write a value, or that there is none. -/
def write (s : Store) (key : String) (value : Option Json) (options : StoreOptions) :
    Store × Except StorageError (List Publication) :=
  match s.writeStored key value options with
  | (s, .ok ()) => (s.writeMemory key value options, .ok (announcement options key value))
  | (s, .error e) => (s, .error e)

/-- Removing is writing that there is no value. -/
theorem remove_eq_write (s : Store) (key : String) (options : StoreOptions) :
    s.remove key options = s.write key none options := by
  have hstored : s.writeStored key none options =
      if options.storage = some .session then (s, .ok ()) else s.erase key := rfl
  unfold remove write
  rw [hstored]
  generalize (if options.storage = some .session then (s, Except.ok ()) else s.erase key) = outcome
  rcases outcome with ⟨next, _ | _⟩ <;> rfl

/-- Setting and removing are writes. -/
theorem perform_write (s : Store) {call : StoreCall} {key : String} {value : Option Json}
    {options : StoreOptions} (h : call.write? = some (key, value, options)) :
    s.answer call = .changed (s.write key value options).2 ∧
      (s.perform call).1 = (s.write key value options).1 := by
  cases call with
  | get | seed => cases h
  | set => cases h; exact ⟨rfl, rfl⟩
  | remove =>
    cases h
    simp only [answer, perform, remove_eq_write, and_self]

/-- Write what is loaded with a change, if there is something to change. -/
def amend (s : Store) (change : List (String × Json) → Option (List (String × Json))) :
    Store × Except StorageError Unit :=
  match s.load with
  | (s, .ok fields) => ((change fields).map s.save).getD (s, .ok ())
  | (s, .error e) => (s, .error e)

/-- Erasing changes what is loaded only if the key is there. -/
theorem erase_eq_amend (s : Store) (key : String) :
    s.erase key = s.amend fun fields =>
      if (fields.lookup (storageKey key)).isSome then
        some (Fields.swapRemove fields (storageKey key)) else none := by
  unfold erase amend
  rcases s.load with ⟨loaded, _ | fields⟩
  · rfl
  · simp only
    split <;> rfl

/-- A write amends local storage, or else puts something into the session under its key. -/
theorem writeStored_cases (key : String) (value : Option Json) (options : StoreOptions) :
    (∃ change, ∀ s : Store, s.writeStored key value options = s.amend change) ∨
    ∃ put : List (String × Json) → List (String × Json),
      (∀ session name, name ≠ storageKey key →
        (put session).lookup name = session.lookup name) ∧
      ∀ s : Store, s.writeStored key value options =
        ({ s with session := put s.session }, .ok ()) := by
  cases value with
  | some value =>
    rcases hstorage : options.storage with _ | _ | _
    · exact .inr ⟨id, fun _ _ _ => rfl, fun s => by
        simp only [writeStored, hstorage, putStored, id]⟩
    · exact .inl ⟨fun fields => some (Fields.set fields (storageKey key) value), fun s => by
        simp only [writeStored, hstorage, putStored]
        rfl⟩
    · refine .inr ⟨(Fields.set · (storageKey key) value), fun session name hname => ?_, fun s => ?_⟩
      · exact (Fields.lookup_set _ _ _ _).trans (if_neg hname)
      · simp only [writeStored, hstorage, putStored]
  | none =>
    by_cases hsession : options.storage = some .session
    · exact .inr ⟨id, fun _ _ _ => rfl, fun s => by
        simp only [writeStored, hsession, if_true, id]⟩
    · exact .inl ⟨_, fun s => by
        simp only [writeStored, hsession, if_false]
        exact erase_eq_amend s key⟩

end Store

/-! ## Unfinished files -/

/-- A directory without an unfinished file. -/
def StateDirectory.tidied (d : StateDirectory) : StateDirectory := { d with unfinished := false }

namespace Store

/-- A store on a directory without an unfinished file. -/
def tidied (s : Store) : Store := s.within s.directory.tidied

/-- The outcome of an operation, without an unfinished file. -/
def tidy {α : Type} (outcome : Store × α) : Store × α := (outcome.1.tidied, outcome.2)

/-- There is one unfinished file at most. -/
@[simp] theorem tidied_tidied (s : Store) : s.tidied.tidied = s.tidied := rfl

/-- An unfinished file has no part in the session. -/
@[simp] theorem session_tidied (s : Store) : s.tidied.session = s.session := rfl

/-- An unfinished file has no part in memory. -/
@[simp] theorem memory_tidied (s : Store) : s.tidied.memory = s.memory := rfl

/-- An unfinished file is not loaded. -/
theorem tidy_load (s : Store) : s.tidied.load = tidy s.load := by
  obtain ⟨directory, memory, session, saved⟩ := s
  have hread : directory.tidied.read? = directory.read? := rfl
  cases saved with
  | some fields => rfl
  | none =>
    simp only [tidied, within, load, hread]
    cases directory.read? <;> rfl

/-- An unfinished file does not keep another one from being written. -/
theorem tidy_save (s : Store) (fields : List (String × Json)) :
    tidy (s.tidied.save fields) = tidy (s.save fields) := by
  obtain ⟨⟨file, unfinished, obstacle⟩, memory, session, saved⟩ := s
  rcases obstacle with _ | _ | _ | _ <;> rfl

/-- An unfinished file has no part in what the storages hold. -/
theorem tidy_stored (s : Store) (key : String) : s.tidied.stored key = tidy (s.stored key) := by
  unfold stored
  rw [tidy_load, session_tidied]
  cases s.session.lookup (storageKey key) with
  | some value => rfl
  | none => rcases s.load with ⟨loaded, _ | fields⟩ <;> rfl

/-- An unfinished file has no part in what is found. -/
theorem tidy_get (s : Store) (key : String) : s.tidied.get key = tidy (s.get key) := by
  unfold get
  rw [tidy_stored, memory_tidied]
  cases s.memory.lookup key with
  | some value => rfl
  | none => rcases s.stored key with ⟨next, _ | _ | value⟩ <;> rfl

/-- An unfinished file has no part in how local storage is changed. -/
theorem tidy_amend (s : Store) (change : List (String × Json) → Option (List (String × Json))) :
    tidy (s.tidied.amend change) = tidy (s.amend change) := by
  unfold amend
  rw [tidy_load]
  rcases s.load with ⟨loaded, _ | fields⟩
  · rfl
  · simp only [tidy]
    cases change fields with
    | none => rfl
    | some new => exact tidy_save loaded new

/-- An unfinished file has no part in how storages are written. -/
theorem tidy_writeStored (s : Store) (key : String) (value : Option Json)
    (options : StoreOptions) :
    tidy (s.tidied.writeStored key value options) = tidy (s.writeStored key value options) := by
  obtain ⟨change, hchange⟩ | ⟨put, -, hput⟩ := writeStored_cases key value options
  · rw [hchange, hchange, tidy_amend]
  · rw [hput, hput]
    rfl

/-- An unfinished file has no part in how memory is written. -/
theorem tidied_writeMemory (s : Store) (key : String) (value : Option Json)
    (options : StoreOptions) :
    (s.writeMemory key value options).tidied = s.tidied.writeMemory key value options := by
  cases value <;> rfl

/-- An unfinished file has no part in a write. -/
theorem tidy_write (s : Store) (key : String) (value : Option Json) (options : StoreOptions) :
    tidy (s.tidied.write key value options) = tidy (s.write key value options) := by
  have hstored := tidy_writeStored s key value options
  unfold write
  generalize s.tidied.writeStored key value options = left at *
  generalize s.writeStored key value options = right at *
  obtain ⟨next, outcome⟩ := left
  obtain ⟨next', outcome'⟩ := right
  obtain ⟨hnext, hsame⟩ := Prod.mk.inj hstored
  cases hsame
  cases outcome with
  | error e => exact Prod.ext hnext rfl
  | ok =>
    simp only [tidy, tidied_writeMemory, hnext]

/-- An unfinished file has no part in seeding. -/
theorem tidy_seed (s : Store) (initial : List (String × Json)) :
    s.tidied.seed initial = tidy (s.seed initial) := by
  induction initial generalizing s with
  | nil => rfl
  | cons field rest ih =>
    rw [seed, seed, tidy_stored]
    rcases s.stored field.1 with ⟨next, _ | found⟩
    · rfl
    · exact ih (next.remember field.1 (found.getD field.2))

/-- An unfinished file has no part in any call. -/
theorem tidy_perform (s : Store) (call : StoreCall) :
    s.tidied.answer call = s.answer call ∧
      (s.tidied.perform call).1.tidied = (s.perform call).1.tidied := by
  cases call with
  | get key =>
    have h := tidy_get s key
    simp only [answer, perform, h, tidy, tidied_tidied, and_self]
  | seed initial =>
    have h := tidy_seed s initial
    simp only [answer, perform, h, tidy, tidied_tidied, and_self]
  | set key value options =>
    obtain ⟨hnext, hanswer⟩ := Prod.mk.inj (tidy_write s key (some value) options)
    exact ⟨congrArg StoreAnswer.changed hanswer, hnext⟩
  | remove key options =>
    obtain ⟨hnext, hanswer⟩ := Prod.mk.inj (tidy_write s key none options)
    simp only [answer, perform, remove_eq_write, hnext, hanswer, and_self]

/-- A fault comes over a directory whether or not there is an unfinished file. -/
theorem tidied_under (s : Store) (fault : Option StorageFault) :
    s.tidied.within (s.tidied.directory.under fault) =
      (s.within (s.directory.under fault)).tidied := by
  rcases fault with _ | _ | _ <;> rfl

/-- An unfinished file has no part in any step. -/
theorem tidy_step (s : Store) (step : StoreStep) :
    s.tidied.answerTo step = s.answerTo step ∧
      (s.tidied.step step).1.tidied = (s.step step).1.tidied := by
  obtain ⟨hanswer, hnext⟩ := tidy_perform (s.within (s.directory.under step.fault)) step.call
  constructor
  · unfold answerTo
    rw [tidied_under, hanswer]
  · rw [step_fst, step_fst, tidied_under]
    exact congrArg (fun next => next.within (next.directory.behind s.directory.obstacle)) hnext

/-- An unfinished file has no part in what a run is answered. -/
theorem answers_tidied (s : Store) (moves : List StoreMove) :
    s.tidied.answers moves = s.answers moves := by
  induction moves generalizing s with
  | nil => rfl
  | cons move rest ih =>
    obtain ⟨hanswer, hnext⟩ := tidy_step s move.step
    have hrest : (s.tidied.step move.step).1.answers rest = (s.step move.step).1.answers rest := by
      rw [← ih, hnext, ih]
    have hfile : (s.tidied.step move.step).1.directory.file =
        (s.step move.step).1.directory.file :=
      congrArg (fun next => next.directory.file) hnext
    simp only [answers, hanswer, hrest, hfile]

end Store

end ViewSchema
