import ViewSchema.Proofs.State.Storages

/-!
# Looking at values leaves no trace

Looking a value up may load local storage and put the value into memory.  Neither is noticed
later: what is loaded is what would be read, and a value that only a look has put into memory is
the one that the storages still hold.  So values can be looked up between any calls without
changing what the calls answer, what they announce, and what is in the file.

Main results:

- Definition `Store.Ahead`: of two level stores, one remembers values that the other one would
  find in a storage.
- Theorem `Store.Ahead.get_right`: looking up a value keeps a store ahead.
- Theorem `Store.Ahead.perform`: stores of which one is ahead answer alike, and stay so.
- Theorem `Store.answers_filter_isOwn`: runs with further looks are answered like those without.
- Theorem `Store.answerTo_look_unreadable`: why nobody else may take the file away for a while.
-/

namespace ViewSchema

/-! ## Runs with further looks -/

/-- The answer to a call, with what it announces. -/
inductive StoreAnswer where
  | found (value : Except StorageError (Option Json))
  | changed (announced : Except StorageError (List Publication))
  | seeded (outcome : Except StorageError Unit)

/-- A step of a run, or a further look at a value. -/
inductive StoreMove where
  | own (step : StoreStep)
  | look (key : String) (fault : Option StorageFault)

namespace StoreMove

/-- What a move does to the store. -/
def step : StoreMove → StoreStep
  | own step => step
  | look key fault => ⟨.get key, fault⟩

/-- Whether a move belongs to the run. -/
def isOwn : StoreMove → Bool
  | own _ => true
  | look _ _ => false

/-- Whatever goes wrong during a step of the run, what can be read of the file is the same.  A
further look may also find the file unreadable. -/
def LeavesReading (d : StateDirectory) : StoreMove → Prop
  | own step => (d.under step.fault).read? = d.read?
  | look _ fault => (d.under fault).read? = d.read? ∨ fault = some .unreadable

end StoreMove

/-- A move on a file that nobody but the store touches: a call, during which writing may fail, or a
further look.  What can be read of the file is what the store left there, or what it held before. -/
inductive SoleMove where
  | own (call : StoreCall) (writeFails : Bool)
  | look (key : String)

namespace SoleMove

/-- The move with what goes wrong during it. -/
def move : SoleMove → StoreMove
  | own call writeFails => .own ⟨call, if writeFails then some .unwritable else none⟩
  | look key => .look key none

end SoleMove

/-- A directory with something else, or nothing, in its way. -/
def StateDirectory.behind (d : StateDirectory) (obstacle : Option Obstacle) : StateDirectory :=
  { d with obstacle }

/-- When a fault has gone away, the directory is as it was. -/
theorem StateDirectory.behind_under (d : StateDirectory) (fault : Option StorageFault) :
    (d.under fault).behind d.obstacle = d := by
  rcases fault with _ | _ | _ <;> rfl

namespace Store

/-- The answer to a call. -/
def answer (s : Store) : StoreCall → StoreAnswer
  | .get key => .found (s.get key).2
  | .set key value options => .changed (s.set key value options).2
  | .remove key options => .changed (s.remove key options).2
  | .seed initial => .seeded (s.seed initial).2

/-- The answer to the call of a step, under its fault. -/
def answerTo (s : Store) (step : StoreStep) : StoreAnswer :=
  (s.within (s.directory.under step.fault)).answer step.call

/-- What the steps of a run are answered, each with the text of the file after it. -/
def answers (s : Store) : List StoreMove → List (StoreAnswer × Option String)
  | [] => []
  | move :: rest =>
    let next := (s.step move.step).1
    if move.isOwn then (s.answerTo move.step, next.directory.file) :: next.answers rest
    else next.answers rest

variable {s t u : Store} {d e : StateDirectory} {key other : String} {value : Json}
  {storage : Option StorageKind} {fields : List (String × Json)}

/-! ## A store ahead of another one -/

/-- One of two level stores remembers what the other one remembers, and besides only values that
the other one would find in a storage. -/
structure Ahead (d : StateDirectory) (s t : Store) : Prop where
  level : Level d s t
  recalls : ∀ key, t.memory.lookup key = s.memory.lookup key ∨
    s.memory.lookup key = none ∧
      ∃ value, t.memory.lookup key = some value ∧ (s.stored key).2 = .ok (some value)
  distinct : Fields.Distinct s.memory
  distinct' : Fields.Distinct t.memory

namespace Ahead

/-- Stores whose memory stays and whose storages hold what they held stay ahead. -/
theorem of_level (h : Ahead d s t) {s' t' : Store} (hlevel : Level d s' t')
    (hmemory : s'.memory = s.memory) (hmemory' : t'.memory = t.memory)
    (hstored : ∀ key, (s'.stored key).2 = (s.stored key).2) : Ahead d s' t' := by
  refine ⟨hlevel, ?_, hmemory ▸ h.distinct, hmemory' ▸ h.distinct'⟩
  intro key
  rw [hmemory, hmemory', hstored]
  exact h.recalls key

/-- Stores in which one key changes alike stay ahead. -/
theorem of_change (h : Ahead d s t) (key : String) {s' t' : Store} (hlevel : Level d s' t')
    (hdistinct : Fields.Distinct s'.memory) (hdistinct' : Fields.Distinct t'.memory)
    (hkey : t'.memory.lookup key = s'.memory.lookup key)
    (hmemory : ∀ other, other ≠ key → s'.memory.lookup other = s.memory.lookup other)
    (hmemory' : ∀ other, other ≠ key → t'.memory.lookup other = t.memory.lookup other)
    (hstored : ∀ other, other ≠ key → (s'.stored other).2 = (s.stored other).2) :
    Ahead d s' t' := by
  refine ⟨hlevel, ?_, hdistinct, hdistinct'⟩
  intro other
  by_cases hother : other = key
  · subst hother
    exact .inl hkey
  · rw [hmemory other hother, hmemory' other hother, hstored other hother]
    exact h.recalls other

/-- Remembering one value in both stores, while the storages change at most under its key. -/
theorem remember (h : Ahead d s t) {s' t' : Store} (hlevel : Level d s' t')
    (hmemory : s'.memory = s.memory) (hmemory' : t'.memory = t.memory)
    (hstored : ∀ other, other ≠ key → (s'.stored other).2 = (s.stored other).2) (value : Json) :
    Ahead d (s'.remember key value) (t'.remember key value) := by
  have hleft : Level d (s'.remember key value) t' := hlevel.of_congr rfl rfl rfl
  have hright : Level d (t'.remember key value) (s'.remember key value) :=
    hleft.symm.of_congr rfl rfl rfl
  refine h.of_change key hright.symm ?_ ?_ ?_ ?_ ?_ ?_
  · exact (hmemory ▸ h.distinct).set _ _
  · exact (hmemory' ▸ h.distinct').set _ _
  · rw [lookup_memory_remember, lookup_memory_remember, if_pos rfl, if_pos rfl]
  · intro other hother
    rw [lookup_memory_remember, if_neg hother, hmemory]
  · intro other hother
    rw [lookup_memory_remember, if_neg hother, hmemory']
  · intro other hother
    rw [← hstored other hother]
    exact stored_congr rfl (load_congr rfl rfl)

/-- Forgetting one value in both stores, while the storages change at most under its key. -/
theorem forget (h : Ahead d s t) {s' t' : Store} (hlevel : Level d s' t')
    (hmemory : s'.memory = s.memory) (hmemory' : t'.memory = t.memory)
    (hstored : ∀ other, other ≠ key → (s'.stored other).2 = (s.stored other).2)
    (storage : Option StorageKind) :
    Ahead d (s'.forget key storage) (t'.forget key storage) := by
  have hsession : (t'.forget key storage).session = (s'.forget key storage).session := by
    simp only [Store.forget, hlevel.session_eq]
  have hdistinct : Fields.Distinct (s'.forget key storage).session := by
    simp only [Store.forget]
    split
    · exact hlevel.distinct_session
    · exact hlevel.distinct_session.swapRemove _
  have hleft : Level d (s'.forget key storage)
      { t' with session := (t'.forget key storage).session } :=
    (hlevel.of_session hsession hdistinct).of_congr rfl rfl rfl
  have hright : Level d (t'.forget key storage) (s'.forget key storage) :=
    hleft.symm.of_congr rfl rfl rfl
  have hsmemory : Fields.Distinct s'.memory := hmemory ▸ h.distinct
  have htmemory : Fields.Distinct t'.memory := hmemory' ▸ h.distinct'
  refine h.of_change key hright.symm (hsmemory.swapRemove _) (htmemory.swapRemove _) ?_ ?_ ?_ ?_
  · exact (Fields.lookup_swapRemove htmemory _ _).trans
      ((if_pos rfl).trans ((Fields.lookup_swapRemove hsmemory _ _).trans (if_pos rfl)).symm)
  · intro other hother
    rw [← hmemory]
    exact (Fields.lookup_swapRemove hsmemory _ _).trans (if_neg hother)
  · intro other hother
    rw [← hmemory']
    exact (Fields.lookup_swapRemove htmemory _ _).trans (if_neg hother)
  · intro other hother
    have hne : storageKey other ≠ storageKey key := fun heq => hother (storageKey_inj.1 heq)
    rw [← hstored other hother]
    refine stored_congr ?_ (load_congr rfl rfl)
    simp only [Store.forget]
    split
    · rfl
    · exact (Fields.lookup_swapRemove hlevel.distinct_session _ _).trans (if_neg hne)

/-- What one store remembers is remembered by the store ahead of it. -/
theorem lookup_eq_some (h : Ahead d s t) (hvalue : s.memory.lookup key = some value) :
    t.memory.lookup key = some value := by
  rcases h.recalls key with heq | ⟨hnone, -⟩
  · rw [heq, hvalue]
  · rw [hvalue] at hnone
    cases hnone

end Ahead

/-! ## Calls -/

/-- A value in memory is answered. -/
theorem get_of_some (h : s.memory.lookup key = some value) : s.get key = (s, .ok (some value)) := by
  simp [get, h]

/-- Another value is looked for in the storages, and remembered if it is found. -/
theorem get_of_none (h : s.memory.lookup key = none) : s.get key =
    (match (s.stored key).2 with
      | .ok (some value) => (s.stored key).1.remember key value
      | _ => (s.stored key).1, (s.stored key).2) := by
  unfold get
  rw [h]
  rcases s.stored key with ⟨next, (_ | _ | value)⟩ <;> rfl

/-- A step as a call on the store under the fault, which then goes away. -/
theorem step_fst (s : Store) (step : StoreStep) :
    (s.step step).1 =
      (((s.within (s.directory.under step.fault)).perform step.call).1.within
        (((s.within (s.directory.under step.fault)).perform step.call).1.directory.behind
          s.directory.obstacle)) :=
  rfl

/-- A value that is looked up while the file cannot be read is found as it would be otherwise, or
not at all. -/
theorem step_get_unreadable (s : Store) (key : String) :
    (s.step ⟨.get key, some .unreadable⟩).1 = s ∨
      (s.step ⟨.get key, some .unreadable⟩).1 = (s.get key).1 := by
  obtain ⟨directory, memory, session, saved⟩ := s
  have hback := directory.behind_under (some .unreadable)
  have hread : (directory.under (some .unreadable)).read? = none := rfl
  simp only [step_fst, within, perform, get, stored, load, hread]
  cases memory.lookup key with
  | some value => exact .inl (by simp only [hback])
  | none =>
    cases session.lookup (storageKey key) with
    | some value => exact .inr (by simp only [remember, hback])
    | none =>
      cases saved with
      | none => exact .inl (by simp only [hback])
      | some fields =>
        cases hfield : fields.lookup (storageKey key) <;>
          exact .inr (by simp only [remember, hfield, hback])

namespace Ahead

/-- Looking into the storages keeps a store ahead, whichever of the two does it. -/
theorem stored_left (h : Ahead d s t) (key : String) : Ahead d (s.stored key).1 t :=
  h.of_level (h.level.stored_left key) (memory_stored s key) rfl (stored_stored s key)

theorem stored_right (h : Ahead d s t) (key : String) : Ahead d s (t.stored key).1 :=
  h.of_level (h.level.stored_right key) rfl (memory_stored t key) fun _ => rfl

/-- Looking a value up keeps a store ahead: it remembers what the other one would find. -/
theorem get_right (h : Ahead d s t) (key : String) : Ahead d s (t.get key).1 := by
  cases hremembered : t.memory.lookup key with
  | some value => rwa [get_of_some hremembered]
  | none =>
    have hnone : s.memory.lookup key = none := by
      cases hvalue : s.memory.lookup key with
      | none => rfl
      | some value => rw [h.lookup_eq_some hvalue] at hremembered; cases hremembered
    have hstored := h.level.stored_eq key
    have hnext := h.stored_right key
    rw [get_of_none hremembered]
    split
    · rename_i value hfound
      have hlevel : Level d ((t.stored key).1.remember key value) s :=
        hnext.level.symm.of_congr rfl rfl rfl
      refine ⟨hlevel.symm, ?_, h.distinct, hnext.distinct'.set _ _⟩
      intro other
      rw [lookup_memory_remember]
      split
      · rename_i hother
        subst hother
        exact .inr ⟨hnone, value, rfl, hstored ▸ hfound⟩
      · exact hnext.recalls other
    · exact hnext

/-- Both stores answer the same value. -/
theorem get (h : Ahead d s t) (key : String) :
    (t.get key).2 = (s.get key).2 ∧ Ahead d (s.get key).1 (t.get key).1 := by
  cases hvalue : s.memory.lookup key with
  | some value =>
    rw [get_of_some hvalue, get_of_some (h.lookup_eq_some hvalue)]
    exact ⟨rfl, h⟩
  | none =>
    have hstored := h.level.stored_eq key
    have hnext := h.stored_left key
    cases hremembered : t.memory.lookup key with
    | none =>
      have hboth := hnext.stored_right key
      rw [get_of_none hvalue, get_of_none hremembered, hstored]
      refine ⟨rfl, ?_⟩
      split
      · exact hboth.remember hboth.level rfl rfl (fun _ _ => rfl) _
      · exact hboth
    | some value =>
      have hfound : (s.stored key).2 = .ok (some value) := by
        rcases h.recalls key with heq | ⟨-, found, hfound, hfinds⟩
        · rw [hremembered, hvalue] at heq
          cases heq
        · rwa [Option.some.inj (hremembered.symm.trans hfound)]
      rw [get_of_none hvalue, get_of_some hremembered, hfound]
      refine ⟨rfl, hnext.of_change key (hnext.level.of_congr rfl rfl rfl)
        (hnext.distinct.set _ _) h.distinct' ?_ ?_ (fun _ _ => rfl) ?_⟩
      · rw [lookup_memory_remember, if_pos rfl, hremembered]
      · intro other hother
        rw [lookup_memory_remember, if_neg hother]
      · intro other _
        exact stored_congr rfl (load_congr rfl rfl)

/-- Setting a value succeeds or fails in both stores, and afterwards both hold it. -/
theorem set (h : Ahead d s t) (key : String) (value : Json) (options : StoreOptions) :
    (t.set key value options).2 = (s.set key value options).2 ∧
      Ahead d (s.set key value options).1 (t.set key value options).1 := by
  have htouches := touches_putStored key value options.storage
  obtain ⟨hresult, hlevel⟩ := htouches.level h.level
  have hstored := htouches.stored h.level
  have hmemory := htouches.memory s
  have hmemory' := htouches.memory t
  unfold Store.set
  cases hleft : s.putStored key value options.storage with
  | mk s' outcome =>
    cases hright : t.putStored key value options.storage with
    | mk t' outcome' =>
      simp only [hleft, hright] at hresult hlevel hstored hmemory hmemory'
      subst hresult
      cases outcome' with
      | ok =>
        exact ⟨rfl, h.remember hlevel hmemory hmemory' (fun other hother =>
          hstored other fun _ => hother) value⟩
      | error e =>
        refine ⟨rfl, h.of_level hlevel hmemory hmemory' fun other => hstored other ?_⟩
        rintro ⟨⟩

/-- Removing a value succeeds or fails in both stores, and afterwards none remembers it. -/
theorem remove (h : Ahead d s t) (key : String) (options : StoreOptions) :
    (t.remove key options).2 = (s.remove key options).2 ∧
      Ahead d (s.remove key options).1 (t.remove key options).1 := by
  have htouches : Touches key fun s : Store =>
      if options.storage = some .session then (s, .ok ()) else s.erase key := by
    split
    · exact ⟨fun h => ⟨rfl, h⟩, fun s => rfl, fun _ _ _ => rfl⟩
    · exact touches_erase key
  obtain ⟨hresult, hlevel⟩ := htouches.level h.level
  have hstored := htouches.stored h.level
  have hmemory := htouches.memory s
  have hmemory' := htouches.memory t
  unfold Store.remove
  generalize (if options.storage = some .session then (s, .ok ()) else s.erase key) = left at *
  generalize (if options.storage = some .session then (t, .ok ()) else t.erase key) = right at *
  obtain ⟨s', outcome⟩ := left
  obtain ⟨t', outcome'⟩ := right
  cases hresult
  cases outcome with
  | ok =>
    exact ⟨rfl, h.forget hlevel hmemory hmemory' (fun other hother =>
      hstored other fun _ => hother) options.storage⟩
  | error e =>
    refine ⟨rfl, h.of_level hlevel hmemory hmemory' fun other => hstored other ?_⟩
    rintro ⟨⟩

/-- Seeding fails at the same value, or remembers the same values. -/
theorem seed (h : Ahead d s t) (initial : List (String × Json)) :
    (t.seed initial).2 = (s.seed initial).2 ∧
      Ahead d (s.seed initial).1 (t.seed initial).1 := by
  induction initial generalizing s t with
  | nil => exact ⟨rfl, h⟩
  | cons field rest ih =>
    obtain ⟨key, value⟩ := field
    have hstored := h.level.stored_eq key
    have hnext := (h.stored_left key).stored_right key
    rw [Store.seed, Store.seed]
    cases hleft : s.stored key with
    | mk s' outcome =>
      cases hright : t.stored key with
      | mk t' outcome' =>
        simp only [hleft, hright] at hstored hnext
        subst hstored
        cases outcome' with
        | ok found => exact ih (hnext.remember hnext.level rfl rfl (fun _ _ => rfl) _)
        | error e => exact ⟨rfl, hnext⟩

/-- Stores of which one is ahead answer a call alike, and stay so. -/
theorem perform (h : Ahead d s t) (call : StoreCall) :
    t.answer call = s.answer call ∧ Ahead d (s.perform call).1 (t.perform call).1 := by
  cases call with
  | get key => exact ⟨congrArg _ (h.get key).1, (h.get key).2⟩
  | set key value options =>
    exact ⟨congrArg _ (h.set key value options).1, (h.set key value options).2⟩
  | remove key options => exact ⟨congrArg _ (h.remove key options).1, (h.remove key options).2⟩
  | seed initial => exact ⟨congrArg _ (h.seed initial).1, (h.seed initial).2⟩

/-! ## Steps and runs -/

/-- A store stays ahead in another condition of the directory that says the same about what can
be read. -/
theorem within (h : Ahead d s t) {d' e : StateDirectory} (hread : d'.read? = d.read?)
    (hobstacle : e.obstacle = d'.obstacle) (hunread : s.saved = none ∨ t.saved = none → e = d') :
    Ahead d' (s.within e) (t.within e) := by
  refine ⟨h.level.within hread hobstacle hunread, ?_, h.distinct, h.distinct'⟩
  intro key
  have hstored : ((s.within e).stored key).2 = (s.stored key).2 :=
    stored_congr rfl (h.level.load_within_left hread hunread)
  rw [hstored]
  exact h.recalls key

/-- A store stays ahead when a fault comes that leaves reading alone. -/
theorem under (h : Ahead d s t) {fault : Option StorageFault}
    (hread : (d.under fault).read? = d.read?) :
    Ahead (d.under fault) (s.within (s.directory.under fault))
      (t.within (s.directory.under fault)) := by
  refine h.within hread ?_ fun hnone => by rw [h.level.unread hnone]
  have hobstacle := h.level.obstacle_eq
  rcases fault with _ | _ | _
  · exact hobstacle
  · rfl
  · simp only [StateDirectory.under, hobstacle]

/-- A store stays ahead when the fault goes away. -/
theorem restored {fault : Option StorageFault} (h : Ahead (d.under fault) s t)
    (hread : (d.under fault).read? = d.read?) :
    Ahead d (s.within (s.directory.behind d.obstacle))
      (t.within (s.directory.behind d.obstacle)) :=
  h.within hread.symm rfl fun hnone => by rw [h.level.unread hnone, d.behind_under]

/-- Stores of which one is ahead answer a step alike, and stay so. -/
theorem step (h : Ahead d s t) {step : StoreStep} (hread : (d.under step.fault).read? = d.read?) :
    t.answerTo step = s.answerTo step ∧ Ahead d (s.step step).1 (t.step step).1 := by
  have hunder := h.under hread
  obtain ⟨hanswer, hnext⟩ := hunder.perform step.call
  have hrestored := hnext.restored hread
  rw [← h.level.obstacle_eq] at hrestored
  constructor
  · unfold answerTo
    rw [h.level.directory_eq]
    exact hanswer
  · have hdirectory := hnext.level.directory_eq
    rw [step_fst, step_fst, h.level.directory_eq, hdirectory]
    exact hrestored

/-- A further look keeps a store ahead. -/
theorem look (h : Ahead d s t) {key : String} {fault : Option StorageFault}
    (hread : (d.under fault).read? = d.read? ∨ fault = some .unreadable) :
    Ahead d s (t.step ⟨.get key, fault⟩).1 := by
  rcases hread with hread | rfl
  · have hnext := (h.under hread).get_right key
    have hrestored := hnext.restored hread
    have hback :
        (s.within (s.directory.under fault)).directory.behind d.obstacle = s.directory := by
      rw [← h.level.obstacle_eq]
      exact s.directory.behind_under fault
    have hdirectory : ((t.within (s.directory.under fault)).get key).1.directory =
        s.directory.under fault := hnext.level.directory_eq
    rw [step_fst, h.level.directory_eq]
    show Ahead d s (((t.within (s.directory.under fault)).get key).1.within
      (((t.within (s.directory.under fault)).get key).1.directory.behind s.directory.obstacle))
    rw [hdirectory, s.directory.behind_under]
    rw [hback] at hrestored
    exact hrestored
  · rcases step_get_unreadable t key with heq | heq
    · rwa [heq]
    · rw [heq]
      exact h.get_right key

end Ahead

/-- Further looks keep a store ahead of the one that goes without, and both answer the steps of
the run alike. -/
theorem Ahead.answers (h : Ahead d s t) {moves : List StoreMove}
    (hmoves : ∀ move ∈ moves, move.LeavesReading d) :
    t.answers moves = s.answers (moves.filter (·.isOwn)) ∧
      Ahead d (s.run ((moves.filter (·.isOwn)).map (·.step))).1
        (t.run (moves.map (·.step))).1 := by
  induction moves generalizing s t with
  | nil => exact ⟨rfl, h⟩
  | cons move rest ih =>
    have hmove := hmoves move List.mem_cons_self
    have hrest := fun later hlater => hmoves later (List.mem_cons_of_mem _ hlater)
    cases move with
    | own step =>
      obtain ⟨hanswer, hnext⟩ := h.step hmove
      obtain ⟨hanswers, hlast⟩ := ih hnext hrest
      refine ⟨?_, hlast⟩
      show (t.answerTo step, (t.step step).1.directory.file) :: (t.step step).1.answers rest =
        (s.answerTo step, (s.step step).1.directory.file) ::
          (s.step step).1.answers (rest.filter (·.isOwn))
      rw [hanswer, hanswers, hnext.level.directory_eq]
    | look key fault => exact ih (h.look hmove) hrest

/-- Once the file has been read, every value is found or missing, whatever happens to the file. -/
theorem get_of_saved {fields : List (String × Json)} (h : s.saved = some fields) (key : String) :
    ∃ value, (s.get key).2 = .ok value := by
  cases hmemory : s.memory.lookup key with
  | some value => exact ⟨_, congrArg Prod.snd (get_of_some hmemory)⟩
  | none =>
    rw [get_of_none hmemory, stored_snd, load_of_saved h]
    cases s.session.lookup (storageKey key) <;> exact ⟨_, rfl⟩

/-- The first look at a value reads the file. -/
theorem saved_get_opened {text : Option String} (h : d.read? = some text) (key : String) :
    ((opened d).get key).1.saved = some (savedFields text) := by
  have hload : (opened d).load.2 = .ok (savedFields text) := by
    simp only [load, opened, h]
  have hstored : (opened d).stored key = ({ opened d with saved := some (savedFields text) },
      .ok ((savedFields text).lookup (storageKey key))) := by
    simp only [stored, session_opened, List.lookup_nil, load_of_ok hload]
  rw [get_of_none rfl, hstored]
  cases (savedFields text).lookup (storageKey key) <;> rfl

/-- That nobody else touches the file matters.  A store that has read the file does not read it
again, so a look that was made in time lets a later call succeed that cannot read it. -/
theorem answerTo_look_unreadable {text : Option String} (h : d.read? = some text)
    (key other : String) :
    (opened d).answerTo ⟨.get key, some .unreadable⟩ = .found (.error .unreadable) ∧
    ∃ value, ((opened d).step ⟨.get other, none⟩).1.answerTo ⟨.get key, some .unreadable⟩ =
      .found (.ok value) := by
  refine ⟨rfl, ?_⟩
  have hsaved : ((opened d).step ⟨.get other, none⟩).1.saved = some (savedFields text) :=
    saved_get_opened h other
  obtain ⟨value, hvalue⟩ := get_of_saved (s := ((opened d).step ⟨.get other, none⟩).1.within
    (((opened d).step ⟨.get other, none⟩).1.directory.under (some .unreadable))) hsaved key
  exact ⟨value, congrArg StoreAnswer.found hvalue⟩

end Store

end ViewSchema
