import ViewSchema.Json.Depth
import ViewSchema.Proofs.Json.Equality
import ViewSchema.Proofs.Json.RoundTrip
import ViewSchema.Proofs.State.Calls

/-!
# Local storage outlives the process

What a store keeps of the file agrees with the file at every moment, whatever calls fail on
the way.  So a store opened later on the same directory finds what the last successful call
for a key left there, and entries of other names are still there as they were.

Main results:

- Definition `Store.Coherent`: what a store keeps of the file is what the file holds.
- Theorem `Store.leaves_perform`: everything that a call does to local storage.
- Theorem `Store.entries_run`: local storage after a run of calls.
- Theorem `Store.get_reopen_run`: what a new store answers.
-/

namespace ViewSchema

namespace Store

/-- Levels of brackets in stored values, so that the object around them can be read. -/
def maxNesting : Nat := 126

/-- What the file of a store holds. -/
def entries (s : Store) : List (String × Json) := savedFields s.directory.file

/-- What is read from a file has distinct names. -/
theorem distinct_savedFields (text : Option String) : Fields.Distinct (savedFields text) := by
  have hnone : Fields.Distinct ([] : List (String × Json)) := List.nodup_nil
  unfold savedFields
  cases text with
  | none => exact hnone
  | some text =>
    rw [Option.bind_some, Json.parse?]
    cases Json.parseAsWritten? text with
    | none => exact hnone
    | some value =>
      cases value with
      | object fields => exact Fields.distinct_ofList _
      | _ => exact hnone

theorem distinct_entries (s : Store) : Fields.Distinct s.entries := distinct_savedFields _

/-- Legible fields that are written are read again. -/
theorem savedFields_pretty {fields : List (String × Json)} (hdistinct : Fields.Distinct fields)
    (h : ∀ f ∈ fields, f.2.Legible maxNesting) :
    savedFields (some (Json.object fields).pretty) = fields := by
  have hread : Json.parse? (Json.object fields).pretty = some (.object fields) :=
    Json.parse?_pretty (Json.legible_object hdistinct h)
  rw [savedFields, Option.bind_some, hread]
  rfl

/-- What a store keeps of the file is what the file holds, which can be written and read
again; where the directory itself is missing there is no file. -/
structure Coherent (s : Store) : Prop where
  saved_eq : ∀ fields, s.saved = some fields → fields = s.entries
  file_eq_none : s.directory.obstacle = some .directoryIsFile → s.directory.file = none
  legible : ∀ f ∈ s.entries, f.2.Legible maxNesting

/-- A value under a name after a change of local storage. -/
def changed (change : Option (String × Option Json)) (name : String) (old : Option Json) :
    Option Json :=
  match change with
  | some (key, value) => if name = storageKey key then value else old
  | none => old

@[simp] theorem changed_none (name : String) (old : Option Json) : changed none name old = old :=
  rfl

/-- `s.Leaves t change`: one change is all that `t` has done to the local storage of `s`. -/
structure Leaves (s t : Store) (change : Option (String × Option Json)) : Prop where
  coherent : t.Coherent
  obstacle_eq : t.directory.obstacle = s.directory.obstacle
  file_eq : s.directory.obstacle ≠ none → t.directory.file = s.directory.file
  lookup_eq : ∀ name, t.entries.lookup name = changed change name (s.entries.lookup name)

variable {s t u : Store} {key : String} {value : Json} {change : Option (String × Option Json)}

/-- A store that keeps the directory as it was has changed nothing. -/
theorem Leaves.of_directory_eq (ht : t.Coherent) (h : t.directory = s.directory) :
    s.Leaves t none where
  coherent := ht
  obstacle_eq := by rw [h]
  file_eq _ := by rw [h]
  lookup_eq name := by
    unfold entries
    rw [h]
    rfl

/-- A change after none. -/
theorem Leaves.trans (h : s.Leaves t none) (h' : t.Leaves u change) : s.Leaves u change where
  coherent := h'.coherent
  obstacle_eq := h'.obstacle_eq.trans h.obstacle_eq
  file_eq hobstacle := by
    rw [h'.file_eq (by rwa [h.obstacle_eq]), h.file_eq hobstacle]
  lookup_eq name := by
    rw [h'.lookup_eq, h.lookup_eq]
    rfl

/-- Memory and session have no part in local storage. -/
theorem Leaves.of_congr (h : s.Leaves t change) (hdirectory : u.directory = t.directory)
    (hsaved : u.saved = t.saved) : s.Leaves u change := by
  have hentries : u.entries = t.entries := by
    unfold entries
    rw [hdirectory]
  refine ⟨⟨?_, ?_, ?_⟩, ?_, ?_, ?_⟩
  · rw [hsaved, hentries]
    exact h.coherent.saved_eq
  · rw [hdirectory]
    exact h.coherent.file_eq_none
  · rw [hentries]
    exact h.coherent.legible
  · rw [hdirectory]
    exact h.obstacle_eq
  · rw [hdirectory]
    exact h.file_eq
  · rw [hentries]
    exact h.lookup_eq

/-! ## The parts of a call -/

/-- What can be read is the file. -/
theorem Coherent.read?_eq (h : s.Coherent) {text : Option String}
    (hread : s.directory.read? = some text) : text = s.directory.file := by
  unfold StateDirectory.read? at hread
  split at hread
  · cases hread
    rfl
  · rename_i hobstacle
    cases hread
    exact (h.file_eq_none hobstacle).symm
  · cases hread
  · cases hread
    rfl

/-- Loading changes nothing, and gives what the file holds. -/
theorem leaves_load (h : s.Coherent) {r : Except StorageError (List (String × Json))}
    (hload : s.load = (t, r)) :
    s.Leaves t none ∧ ∀ fields, r = .ok fields → fields = t.entries := by
  unfold load at hload
  split at hload
  · rename_i fields hsaved
    cases hload
    refine ⟨.of_directory_eq h rfl, ?_⟩
    rintro _ ⟨⟩
    exact h.saved_eq fields hsaved
  · split at hload
    · rename_i text hread
      cases hload
      have htext := h.read?_eq hread
      subst htext
      refine ⟨.of_directory_eq ⟨?_, h.file_eq_none, h.legible⟩ rfl, ?_⟩
      · rintro _ ⟨⟩
        rfl
      · rintro _ ⟨⟩
        rfl
    · cases hload
      refine ⟨.of_directory_eq h rfl, ?_⟩
      rintro _ ⟨⟩

/-- Writing fields with one change makes that change, or nothing when it fails. -/
theorem leaves_save (h : s.Coherent) {fields : List (String × Json)}
    (hdistinct : Fields.Distinct fields) (hlegible : ∀ f ∈ fields, f.2.Legible maxNesting)
    (hlookup : ∀ name, fields.lookup name = changed change name (s.entries.lookup name))
    {r : Except StorageError Unit} (hsave : s.save fields = (t, r)) :
    s.Leaves t (if r.isOk then change else none) := by
  unfold save StateDirectory.write at hsave
  cases hobstacle : s.directory.obstacle with
  | none =>
    simp only [hobstacle] at hsave
    cases hsave
    have hentries : savedFields (some (Json.object fields).pretty) = fields :=
      savedFields_pretty hdistinct hlegible
    refine ⟨⟨?_, ?_, ?_⟩, ?_, ?_, ?_⟩
    · rintro _ ⟨⟩
      exact hentries.symm
    · rintro ⟨⟩
    · intro f hf
      exact hlegible f (by rwa [entries, hentries] at hf)
    · exact hobstacle.symm
    · exact fun hne => absurd hobstacle hne
    · intro name
      rw [entries, hentries]
      exact hlookup name
  | some obstacle =>
    -- Nothing is written, so that only the unfinished file may be new.
    cases obstacle with
    | directoryIsFile | readOnly =>
      simp only [hobstacle] at hsave
      cases hsave
      exact .of_directory_eq h rfl
    | fileIsDirectory =>
      simp only [hobstacle] at hsave
      cases hsave
      refine ⟨⟨h.saved_eq, ?_, h.legible⟩, hobstacle.symm, fun _ => rfl, fun _ => rfl⟩
      rintro ⟨⟩

/-- Looking a value up in the storages changes nothing. -/
theorem leaves_stored (h : s.Coherent) {r : Except StorageError (Option Json)}
    (hstored : s.stored key = (t, r)) : s.Leaves t none := by
  unfold stored at hstored
  split at hstored
  · cases hstored
    exact .of_directory_eq h rfl
  · split at hstored <;> rename_i hload <;> cases hstored <;> exact (leaves_load h hload).1

/-- Putting a value into local storage changes its key; other storages are no part of it. -/
theorem leaves_putStored (h : s.Coherent) {storage : Option StorageKind}
    (hvalue : storage = some .local → value.Legible maxNesting) {r : Except StorageError Unit}
    (hput : s.putStored key value storage = (t, r)) :
    s.Leaves t (if r.isOk then
      if storage = some .local then some (key, some value) else none else none) := by
  unfold putStored at hput
  split at hput
  · cases hput
    exact .of_directory_eq h rfl
  · cases hput
    exact .of_directory_eq ⟨h.saved_eq, h.file_eq_none, h.legible⟩ rfl
  · split at hput
    · rename_i hload
      obtain ⟨hleaves, hfields⟩ := leaves_load h hload
      have hfields := hfields _ rfl
      subst hfields
      refine hleaves.trans (leaves_save hleaves.coherent ((distinct_entries _).set _ _) ?_ ?_ hput)
      · intro f hf
        rcases Fields.mem_set hf with hold | hnew
        · exact hleaves.coherent.legible f hold
        · exact hnew ▸ hvalue rfl
      · intro name
        rw [Fields.lookup_set]
        rfl
    · rename_i hload
      cases hput
      exact (leaves_load h hload).1

/-- Erasing a key changes it in local storage. -/
theorem leaves_erase (h : s.Coherent) {r : Except StorageError Unit}
    (herase : s.erase key = (t, r)) :
    s.Leaves t (if r.isOk then some (key, none) else none) := by
  unfold erase at herase
  split at herase
  · rename_i hload
    obtain ⟨hleaves, hfields⟩ := leaves_load h hload
    have hfields := hfields _ rfl
    subst hfields
    split at herase
    · refine hleaves.trans
        (leaves_save hleaves.coherent ((distinct_entries _).swapRemove _) ?_ ?_ herase)
      · exact fun f hf => hleaves.coherent.legible f (Fields.mem_of_mem_swapRemove hf)
      · intro name
        rw [Fields.lookup_swapRemove (distinct_entries _)]
        rfl
    · rename_i habsent
      cases herase
      refine hleaves.trans ⟨hleaves.coherent, rfl, fun _ => rfl, ?_⟩
      intro name
      have habsent := Option.not_isSome_iff_eq_none.1 habsent
      show _ = if name = storageKey key then none else _
      split
      · rename_i hname
        rw [hname, habsent]
      · rfl
  · rename_i hload
    cases herase
    exact (leaves_load h hload).1

/-! ## Calls -/

theorem leaves_get (h : s.Coherent) (key : String) : s.Leaves (s.get key).1 none := by
  unfold get
  split
  · exact .of_directory_eq h rfl
  · split
    · rename_i hstored
      exact (leaves_stored h hstored).of_congr rfl rfl
    · rename_i hstored
      exact leaves_stored h hstored
    · rename_i hstored
      exact leaves_stored h hstored

theorem leaves_set (h : s.Coherent) {options : StoreOptions}
    (hvalue : options.storage = some .local → value.Legible maxNesting) :
    s.Leaves (s.set key value options).1 (if (s.set key value options).2.isOk then
      (StoreCall.set key value options).change? else none) := by
  unfold set
  split
  · rename_i hput
    exact (leaves_putStored h hvalue hput).of_congr rfl rfl
  · rename_i hput
    exact leaves_putStored h hvalue hput

theorem leaves_remove (h : s.Coherent) (key : String) (options : StoreOptions) :
    s.Leaves (s.remove key options).1 (if (s.remove key options).2.isOk then
      (StoreCall.remove key options).change? else none) := by
  unfold remove StoreCall.change?
  by_cases hsession : options.storage = some .session
  · simp only [hsession, if_true]
    exact (Leaves.of_directory_eq h rfl).of_congr rfl rfl
  · simp only [hsession, if_false]
    cases herase : s.erase key with
    | mk t r =>
      have hleaves := leaves_erase h herase
      cases r with
      | ok => exact hleaves.of_congr rfl rfl
      | error e => exact hleaves

theorem leaves_seed (h : s.Coherent) (initial : List (String × Json)) :
    s.Leaves (s.seed initial).1 none := by
  induction initial generalizing s with
  | nil => exact .of_directory_eq h rfl
  | cons field rest ih =>
    obtain ⟨key, value⟩ := field
    rw [seed]
    split
    · rename_i t found hstored
      have hremember : s.Leaves (t.remember key (found.getD value)) none :=
        (leaves_stored h hstored).of_congr rfl rfl
      exact hremember.trans (ih hremember.coherent)
    · rename_i hstored
      exact leaves_stored h hstored

/-- A call makes its change to local storage, or none when it fails. -/
theorem leaves_perform (h : s.Coherent) {call : StoreCall}
    (hcall : ∀ key value, call.change? = some (key, some value) → value.Legible maxNesting) :
    s.Leaves (s.perform call).1 (if (s.perform call).2 then call.change? else none) := by
  cases call with
  | get key =>
    rw [StoreCall.change?, ite_self]
    exact leaves_get h key
  | set key value options =>
    refine leaves_set h ?_
    intro hlocal
    exact hcall key value (if_pos hlocal)
  | remove key options => exact leaves_remove h key options
  | seed initial =>
    rw [StoreCall.change?, ite_self]
    exact leaves_seed h initial

/-! ## Runs -/

/-- A fault takes nothing away from what the file holds. -/
theorem Coherent.under (h : s.Coherent) (fault : Option StorageFault) :
    ({ s with directory := s.directory.under fault } : Store).Coherent := by
  rcases fault with _ | _ | _
  · exact h
  · exact ⟨h.saved_eq, by rintro ⟨⟩, h.legible⟩
  · refine ⟨h.saved_eq, fun hmissing => h.file_eq_none ?_, h.legible⟩
    -- Only an obstacle that was there before can be a file in the place of the directory.
    change s.directory.obstacle.or (some .readOnly) = some .directoryIsFile at hmissing
    cases hobstacle : s.directory.obstacle with
    | none => rw [hobstacle] at hmissing; cases hmissing
    | some obstacle => rwa [hobstacle] at hmissing

/-- A fault changes no text and adds an obstacle at most. -/
theorem under_eq (d : StateDirectory) (fault : Option StorageFault) :
    (d.under fault).file = d.file ∧ (d.obstacle ≠ none → (d.under fault).obstacle ≠ none) := by
  rcases fault with _ | _ | _
  · exact ⟨rfl, id⟩
  · exact ⟨rfl, fun _ => Option.some_ne_none _⟩
  · refine ⟨rfl, fun _ hnone => ?_⟩
    cases (Option.or_eq_none_iff.1 hnone).2

/-- A step makes the change of its call, or none when the call fails. -/
theorem leaves_step (h : s.Coherent) {step : StoreStep}
    (hcall : ∀ key value, step.call.change? = some (key, some value) →
      value.Legible maxNesting) :
    s.Leaves (s.step step).1 (if (s.step step).2 then step.call.change? else none) := by
  have hleaves := leaves_perform (h.under step.fault) hcall
  obtain ⟨hfile, hobstacle⟩ := under_eq s.directory step.fault
  have hkept : s.directory.obstacle ≠ none →
      (s.step step).1.directory.file = s.directory.file := fun hne =>
    (hleaves.file_eq (hobstacle hne)).trans hfile
  refine ⟨⟨hleaves.coherent.saved_eq, ?_, hleaves.coherent.legible⟩, rfl, hkept, ?_⟩
  · intro hmissing
    rw [hkept (by rw [show s.directory.obstacle = _ from hmissing]; exact Option.some_ne_none _)]
    exact h.file_eq_none hmissing
  · intro name
    have hentries : ({ s with directory := s.directory.under step.fault } : Store).entries =
        s.entries := by
      unfold entries
      rw [hfile]
    have hlookup := hleaves.lookup_eq name
    rw [hentries] at hlookup
    exact hlookup

/-- After a run, local storage is what the successful calls have made of it, one after the
other. -/
theorem entries_run (h : s.Coherent) {steps : List StoreStep}
    (hsteps : ∀ step ∈ steps, ∀ key value, step.call.change? = some (key, some value) →
      value.Legible maxNesting) :
    (s.run steps).1.Coherent ∧
      (s.run steps).1.directory.obstacle = s.directory.obstacle ∧
      ∀ name, (s.run steps).1.entries.lookup name =
        (s.run steps).2.foldl (fun old call => changed call.change? name old)
          (s.entries.lookup name) := by
  induction steps generalizing s with
  | nil => exact ⟨h, rfl, fun _ => rfl⟩
  | cons step rest ih =>
    have hleaves := leaves_step h (hsteps step List.mem_cons_self)
    obtain ⟨hcoherent, hobstacle, hlookup⟩ :=
      ih hleaves.coherent fun later hlater => hsteps later (List.mem_cons_of_mem _ hlater)
    refine ⟨hcoherent, hobstacle.trans hleaves.obstacle_eq, ?_⟩
    intro name
    have hname := hlookup name
    rw [hleaves.lookup_eq] at hname
    cases hsucceeded : (s.step step).2 with
    | true =>
      simp only [hsucceeded, if_true] at hname
      simpa [run, hsucceeded] using hname
    | false =>
      simp only [hsucceeded] at hname
      simpa [run, hsucceeded] using hname

/-- Changes one after the other leave the last change of a key. -/
theorem foldl_changed_storageKey (calls : List StoreCall) (key : String) (old : Option Json) :
    calls.foldl (fun old call => changed call.change? (storageKey key) old) old =
      (StoreCall.lastChange? key calls).getD old := by
  induction calls generalizing old with
  | nil => rfl
  | cons call rest ih =>
    rw [List.foldl_cons, ih]
    cases hchange : call.change? with
    | none => rw [StoreCall.lastChange?_cons_of_none hchange, changed_none]
    | some change =>
      obtain ⟨other, value⟩ := change
      have hinjective : storageKey key = storageKey other ↔ key = other := by
        simp [storageKey]
      rw [StoreCall.lastChange?_cons_of_some hchange]
      cases StoreCall.lastChange? key rest with
      | some later => rfl
      | none => simp only [changed, hinjective]; split <;> rfl

/-- Changes of other keys leave a name alone. -/
theorem foldl_changed_of_ne {calls : List StoreCall} {name : String}
    (h : ∀ key, (StoreCall.lastChange? key calls).isSome → name ≠ storageKey key)
    (old : Option Json) :
    calls.foldl (fun old call => changed call.change? name old) old = old := by
  induction calls generalizing old with
  | nil => rfl
  | cons call rest ih =>
    rw [List.foldl_cons]
    cases hchange : call.change? with
    | none =>
      rw [changed_none]
      refine ih (fun key hkey => h key ?_) old
      rwa [StoreCall.lastChange?_cons_of_none hchange]
    | some change =>
      obtain ⟨other, value⟩ := change
      have hname : name ≠ storageKey other := h other (by
        rw [StoreCall.lastChange?_cons_of_some hchange, if_pos rfl]
        cases StoreCall.lastChange? other rest <;> rfl)
      rw [show changed (some (other, value)) name old = old from if_neg hname]
      refine ih (fun key hkey => h key ?_) old
      rw [StoreCall.lastChange?_cons_of_some hchange]
      cases hlater : StoreCall.lastChange? key rest with
      | some later => rfl
      | none => simp [hlater] at hkey

/-- A new store answers what the file holds. -/
theorem get_reopen (h : s.Coherent) (hreadable : s.directory.obstacle ≠ some .fileIsDirectory)
    (key : String) : (s.reopen.get key).2 = .ok (s.entries.lookup (storageKey key)) := by
  have hread : s.directory.read? = some s.directory.file := by
    unfold StateDirectory.read?
    split
    · rfl
    · rename_i hobstacle
      rw [h.file_eq_none hobstacle]
    · rename_i hobstacle
      exact absurd hobstacle hreadable
    · rfl
  have hload : s.reopen.load = ({ s.reopen with saved := some s.entries }, .ok s.entries) := by
    unfold load reopen opened
    simp only [hread]
    rfl
  have hstored : s.reopen.stored key = ({ s.reopen with saved := some s.entries },
      .ok (s.entries.lookup (storageKey key))) := by
    unfold stored
    rw [hload]
    rfl
  unfold get
  rw [hstored]
  cases s.entries.lookup (storageKey key) <;> rfl

/-- Whatever calls are made on a store, and whichever of them fail, a store opened afterwards on
the same directory answers what the last successful call that changes a key in local storage
has left there, else what the file held at the start.  Entries under any other name are as they
were. -/
theorem get_reopen_run {d : StateDirectory}
    (hmissing : d.obstacle = some .directoryIsFile → d.file = none)
    (hreadable : d.obstacle ≠ some .fileIsDirectory)
    (hfile : ∀ f ∈ savedFields d.file, f.2.Legible maxNesting) {steps : List StoreStep}
    (hsteps : ∀ step ∈ steps, ∀ key value, step.call.change? = some (key, some value) →
      value.Legible maxNesting) :
    (∀ key, (((opened d).run steps).1.reopen.get key).2 =
      .ok ((StoreCall.lastChange? key ((opened d).run steps).2).getD
        ((savedFields d.file).lookup (storageKey key)))) ∧
    ∀ name, (∀ key, (StoreCall.lastChange? key ((opened d).run steps).2).isSome →
        name ≠ storageKey key) →
      (savedFields ((opened d).run steps).1.directory.file).lookup name =
        (savedFields d.file).lookup name := by
  have hopened : (opened d).Coherent := ⟨by rintro _ ⟨⟩, hmissing, hfile⟩
  obtain ⟨hcoherent, hobstacle, hlookup⟩ := entries_run hopened hsteps
  constructor
  · intro key
    rw [get_reopen hcoherent (by rwa [hobstacle]), hlookup, foldl_changed_storageKey]
    rfl
  · intro name hname
    have hentry := hlookup name
    rw [foldl_changed_of_ne hname] at hentry
    exact hentry

/-- The file of a store with a setting, a draft and an entry of another program. -/
def settingsFile : String :=
  "\x7b\"goat:theme\":\"dark\",\"goat:draft\":[1,2],\"other\":\x7b\"kept\":true\x7d\x7d"

/-- A write that fails, a removal, a value kept for the session only, a value that replaces one
written before, a removal that leaves local storage alone, and a removal that fails. -/
def settingsSteps : List StoreStep :=
  [⟨.set "theme" (.string "light") (.announced (some .local)), some .unwritable⟩,
    ⟨.seed [("page", .int 1)], none⟩,
    ⟨.remove "draft" (.announced none), none⟩,
    ⟨.set "user" (.string "Ada") (.announced (some .session)), none⟩,
    ⟨.set "count" (.int 1) (.announced (some .local)), none⟩,
    ⟨.get "theme", some .unreadable⟩,
    ⟨.set "count" (.int 2) (.announced (some .local)), none⟩,
    ⟨.remove "count" (.announced (some .session)), none⟩,
    ⟨.remove "theme" (.announced (some .local)), some .unreadable⟩]

theorem savedFields_settingsFile : savedFields (some settingsFile) =
    [("goat:theme", .string "dark"), ("goat:draft", .array [.int 1, .int 2]),
      ("other", .object [("kept", .bool true)])] := by
  decide +kernel

theorem legible_settingsFile : ∀ f ∈ savedFields (some settingsFile), f.2.Legible maxNesting := by
  have hdraft : (Json.array [.int 1, .int 2]).NumbersReadBack :=
    ⟨Number.readsBack_int (by decide) (by decide), Number.readsBack_int (by decide) (by decide),
      trivial⟩
  rw [savedFields_settingsFile]
  intro f hf
  simp only [List.mem_cons, List.not_mem_nil, or_false] at hf
  rcases hf with rfl | rfl | rfl
  · exact ⟨Nat.zero_le _, trivial, trivial⟩
  · exact ⟨by decide, ⟨trivial, trivial, trivial⟩, hdraft⟩
  · exact ⟨by decide, ⟨by simp [Fields.Distinct], trivial, trivial⟩, trivial, trivial⟩

/-- What the steps leave of the settings, key by key. -/
theorem get_reopen_settings :
    (∀ f ∈ savedFields (some settingsFile), f.2.Legible maxNesting) ∧
    (∀ step ∈ settingsSteps, ∀ key value, step.call.change? = some (key, some value) →
      value.Legible maxNesting) ∧
    ∃ after, after = ((opened (.holding (some settingsFile))).run settingsSteps).1 ∧
      (after.reopen.get "theme").2 = .ok (some (.string "dark")) ∧
      (after.reopen.get "draft").2 = .ok none ∧
      (after.reopen.get "user").2 = .ok none ∧
      (after.reopen.get "count").2 = .ok (some (.int 2)) ∧
      (savedFields after.directory.file).lookup "other" =
        some (.object [("kept", .bool true)]) := by
  have hfile := legible_settingsFile
  have hsteps : ∀ step ∈ settingsSteps, ∀ key value,
      step.call.change? = some (key, some value) → value.Legible maxNesting := by
    intro step hstep key value hchange
    simp only [settingsSteps, List.mem_cons, List.not_mem_nil, or_false] at hstep
    rcases hstep with rfl | rfl | rfl | rfl | rfl | rfl | rfl | rfl | rfl <;> cases hchange
    · exact ⟨Nat.zero_le _, trivial, trivial⟩
    · exact Json.legible_int (by decide) (by decide)
    · exact Json.legible_int (by decide) (by decide)
  obtain ⟨hget, hother⟩ := get_reopen_run (d := .holding (some settingsFile)) (by rintro ⟨⟩)
    (by rintro ⟨⟩) hfile hsteps
  refine ⟨hfile, hsteps, _, rfl, ?_, ?_, ?_, ?_, ?_⟩
  · rw [hget]
    decide +kernel
  · rw [hget]
    decide +kernel
  · rw [hget]
    decide +kernel
  · rw [hget]
    decide +kernel
  · rw [hother]
    · decide +kernel
    · intro key _ heq
      have hchars := congrArg String.toList heq
      simp [storageKey] at hchars

end Store

end ViewSchema
