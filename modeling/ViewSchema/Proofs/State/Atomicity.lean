import ViewSchema.Proofs.State.Writes

/-!
# Writes happen as a whole or not at all

A call that writes a value goes through local storage, the session and memory, and may fail at
the first of them.  When it fails, the layers hold what they held; all it can have done is to read
the file, or to leave an unfinished file behind.  Neither is noticed by a later call.  When it
succeeds, it makes one announcement and changes nothing but its key.

Main results:

- Theorem `Store.orderly_run`: the layers keep distinct names.
- Definition `Store.Fails` and theorem `Store.fails_write`: what a failed write does to a store.
- Theorem `Store.Orderly.failed_step`: a failed write is not noticed.
- Theorem `Store.Orderly.succeeded_step`: a write spares all other keys.
- Theorem `Store.write_atomic`: a write happens as a whole or not at all, for stores after any
  run.
- Theorem `Store.write_noticed`: what it takes that a failed write, or a write of another key, goes
  unnoticed.
-/

namespace ViewSchema

namespace Store

variable {s t u : Store} {key other : String} {fields : List (String × Json)} {e : StorageError}

/-! ## Distinct names -/

/-- No layer of a store has two values under one name. -/
structure Orderly (s : Store) : Prop where
  memory : Fields.Distinct s.memory
  session : Fields.Distinct s.session
  saved : ∀ fields, s.saved = some fields → Fields.Distinct fields

namespace Orderly

theorem within (h : s.Orderly) (directory : StateDirectory) : (s.within directory).Orderly :=
  ⟨h.memory, h.session, h.saved⟩

theorem distinct_loaded (h : s.Orderly) (hload : s.load.2 = .ok fields) :
    Fields.Distinct fields := by
  cases hsaved : s.saved with
  | some kept =>
    rw [load_of_saved hsaved] at hload
    cases hload
    exact h.saved _ hsaved
  | none =>
    simp only [load, hsaved] at hload
    split at hload
    · cases hload
      exact distinct_savedFields _
    · cases hload

/-- An orderly store is ahead of itself. -/
theorem ahead (h : s.Orderly) : Ahead s.directory s s where
  level := ⟨rfl, rfl, rfl, rfl, fun _ => rfl, h.session, fun _ => h.distinct_loaded⟩
  recalls _ := .inl rfl
  distinct := h.memory
  distinct' := h.memory

end Orderly

/-- The storages of level stores are orderly. -/
theorem Level.orderly {d : StateDirectory} (h : Level d s t) (hmemory : Fields.Distinct s.memory) :
    s.Orderly where
  memory := hmemory
  session := h.distinct_session
  saved fields hsaved := h.distinct_loaded fields (congrArg Prod.snd (load_of_saved hsaved))

/-- The layers keep distinct names in every step. -/
theorem Orderly.step (h : s.Orderly) (step : StoreStep) : (s.step step).1.Orderly := by
  have hunder := (h.within (s.directory.under step.fault)).ahead
  have hnext := (hunder.perform step.call).2
  exact (hnext.level.orderly hnext.distinct).within _

/-- After any run on a directory, the layers have distinct names. -/
theorem orderly_run (h : s.Orderly) (steps : List StoreStep) : (s.run steps).1.Orderly := by
  induction steps generalizing s with
  | nil => exact h
  | cons step rest ih => exact ih (h.step step)

theorem orderly_opened (d : StateDirectory) : (opened d).Orderly :=
  ⟨List.nodup_nil, List.nodup_nil, by rintro _ ⟨⟩⟩

/-! ## Failed writes -/

/-- What a failed write leaves behind: the store itself if the file cannot be read, else the store
that has read the file, maybe beside an unfinished one. -/
inductive Fails (s t : Store) : StorageError → Prop where
  | unreadable : t = s → Fails s t .unreadable
  | unwritable : t.tidied = s.load.1.tidied → Fails s t .unwritable

/-- Reading can only fail for want of a file that can be read. -/
theorem fails_load (h : s.load.2 = .error e) : Fails s s.load.1 e := by
  have hunreadable := eq_unreadable_of_load h
  subst hunreadable
  rw [load_of_error h]
  exact .unreadable rfl

/-- Writing that fails leaves at most an unfinished file. -/
theorem tidied_save (h : (s.save fields).2 = .error e) :
    e = .unwritable ∧ (s.save fields).1.tidied = s.tidied := by
  obtain ⟨⟨file, unfinished, obstacle⟩, memory, session, saved⟩ := s
  rcases obstacle with _ | _ | _ | _ <;> cases h <;> exact ⟨rfl, rfl⟩

theorem fails_amend {change : List (String × Json) → Option (List (String × Json))}
    (h : (s.amend change).2 = .error e) : Fails s (s.amend change).1 e := by
  unfold amend at h ⊢
  cases hload : s.load.2 with
  | error error =>
    have hfails := fails_load hload
    rw [load_of_error hload] at h hfails ⊢
    cases h
    exact hfails
  | ok fields =>
    have hloaded : s.load = (s.load.1, .ok fields) := Prod.ext rfl hload
    rw [hloaded] at h ⊢
    cases hchange : change fields with
    | none => simp [hchange] at h
    | some new =>
      simp only [hchange, Option.map_some, Option.getD_some] at h ⊢
      obtain ⟨rfl, htidied⟩ := tidied_save h
      exact .unwritable htidied

/-- Memory and the session come after whatever can fail. -/
theorem fails_write {value : Option Json} {options : StoreOptions}
    (h : (s.write key value options).2 = .error e) :
    Fails s (s.write key value options).1 e := by
  have hstored : (s.writeStored key value options).2 = .error e →
      Fails s (s.writeStored key value options).1 e := by
    obtain ⟨change, hchange⟩ | ⟨put, -, hput⟩ := writeStored_cases key value options
    · rw [hchange]
      exact fails_amend
    · rw [hput]
      rintro ⟨⟩
  unfold write at h ⊢
  generalize s.writeStored key value options = outcome at *
  obtain ⟨next, _ | _⟩ := outcome
  · cases h
    exact hstored rfl
  · cases h

/-- A failed write under a fault, when the fault has gone away. -/
theorem Fails.restored {fault : Option StorageFault}
    (h : Fails (s.within (s.directory.under fault)) t e) :
    t.within (t.directory.behind s.directory.obstacle) = s ∧ e = .unreadable ∨
      e = .unwritable ∧
      (t.within (t.directory.behind s.directory.obstacle)).tidied =
        ({ s with saved := (s.within (s.directory.under fault)).load.1.saved } : Store).tidied := by
  cases h with
  | unreadable h =>
    left
    subst h
    refine ⟨?_, rfl⟩
    show s.within ((s.directory.under fault).behind s.directory.obstacle) = s
    rw [s.directory.behind_under]
    rfl
  | unwritable h =>
    right
    refine ⟨rfl, ?_⟩
    have hback := s.directory.behind_under fault
    have hnext := congrArg (fun next : Store =>
      next.within (next.directory.behind s.directory.obstacle)) h
    rw [load_eq] at hnext
    calc (t.within (t.directory.behind s.directory.obstacle)).tidied
        = t.tidied.within (t.tidied.directory.behind s.directory.obstacle) := rfl
      _ = _ := hnext
      _ = _ := by
        show Store.mk ((s.directory.under fault).behind s.directory.obstacle).tidied _ _ _ = _
        rw [hback]
        rfl

/-- Loading does the same in another condition of the directory that says the same about what can
be read. -/
theorem saved_load_within {d : StateDirectory} (h : s.saved = none → d.read? = s.directory.read?) :
    (s.within d).load.1.saved = s.load.1.saved := by
  have hsame := load_within h
  cases hload : s.load.2 with
  | ok fields => rw [load_of_ok hload, load_of_ok (hsame.trans hload)]
  | error error =>
    rw [load_of_error hload, load_of_error (hsame.trans hload)]
    rfl

/-- That the file has been read makes no difference as long as the same can be read of it. -/
theorem Orderly.answers_load (h : s.Orderly) {later : List StoreStep}
    (hlater : s.saved = none → ∀ step ∈ later,
      (s.directory.under step.fault).read? = s.directory.read?) :
    s.load.1.answers (later.map .own) = s.answers (later.map .own) := by
  cases hsaved : s.saved with
  | some fields => rw [load_of_saved hsaved]
  | none =>
    have hahead : Ahead s.directory s s.load.1 :=
      h.ahead.of_level h.ahead.level.load_left.symm rfl (memory_load s) fun _ => rfl
    have hmoves : ∀ move ∈ later.map StoreMove.own, move.LeavesReading s.directory := by
      intro move hmove
      obtain ⟨step, hstep, rfl⟩ := List.mem_map.1 hmove
      exact hlater hsaved step hstep
    have hown : (later.map StoreMove.own).filter (·.isOwn) = later.map StoreMove.own :=
      List.filter_eq_self.2 fun move hmove => by
        obtain ⟨step, -, rfl⟩ := List.mem_map.1 hmove
        rfl
    rw [(hahead.answers hmoves).1, hown]

/-- Two stores whose layers hold the same. -/
structure SameLayers (s t : Store) : Prop where
  memory : t.memory = s.memory
  session : t.session = s.session
  file : t.directory.file = s.directory.file

/-- What is kept of the file and an unfinished file are in none of the layers. -/
theorem SameLayers.of_tidied {saved : Option (List (String × Json))}
    (h : t.tidied = ({ s with saved } : Store).tidied) : SameLayers s t := by
  have hmemory := congrArg Store.memory h
  have hsession := congrArg Store.session h
  have hfile := congrArg (fun store => store.directory.file) h
  exact ⟨hmemory, hsession, hfile⟩

theorem Fails.sameLayers (h : Fails s t e) : SameLayers s t := by
  cases h with
  | unreadable h => subst h; exact ⟨rfl, rfl, rfl⟩
  | unwritable h =>
    rw [load_eq] at h
    exact .of_tidied h

section Steps

variable {call : StoreCall} {fault : Option StorageFault} {written : Option Json}
  {options : StoreOptions}

/-- A write that fails leaves the layers as they were, and is not noticed by later calls. -/
theorem Orderly.failed_step (h : s.Orderly) (hcall : call.write? = some (key, written, options))
    (hanswer : s.answerTo ⟨call, fault⟩ = .changed (.error e)) :
    SameLayers s (s.step ⟨call, fault⟩).1 ∧
      ∀ later : List StoreStep,
        (s.saved = none → e = .unwritable → ∀ step ∈ ⟨call, fault⟩ :: later,
          (s.directory.under step.fault).read? = s.directory.read?) →
        (s.step ⟨call, fault⟩).1.answers (later.map .own) = s.answers (later.map .own) := by
  obtain ⟨hwrite, hnext⟩ := perform_write (s.within (s.directory.under fault)) hcall
  have hfailed : ((s.within (s.directory.under fault)).write key written options).2 = .error e :=
    StoreAnswer.changed.inj (hwrite.symm.trans hanswer)
  have hfails := (fails_write hfailed).restored
  rw [← hnext] at hfails
  rw [step_fst]
  simp only
  generalize ((s.within (s.directory.under fault)).perform call).1 = next at *
  obtain ⟨hsame, -⟩ | ⟨rfl, htidied⟩ := hfails
  · rw [hsame]
    exact ⟨⟨rfl, rfl, rfl⟩, fun _ _ => rfl⟩
  · refine ⟨.of_tidied htidied, fun later hlater => ?_⟩
    have hsaved : (s.within (s.directory.under fault)).load.1.saved = s.load.1.saved :=
      saved_load_within fun hnone => hlater hnone rfl _ List.mem_cons_self
    rw [hsaved, ← load_eq] at htidied
    rw [← answers_tidied, htidied, answers_tidied]
    exact h.answers_load fun hnone step hstep =>
      hlater hnone rfl step (List.mem_cons_of_mem _ hstep)

/-! ## Successful writes -/

/-- No layer has another value than before under a key. -/
structure Spares (other : String) (s t : Store) : Prop where
  memory : t.memory.lookup other = s.memory.lookup other
  session : t.session.lookup (storageKey other) = s.session.lookup (storageKey other)
  stored : (t.stored other).2 = (s.stored other).2

/-- A value that was spared is found again. -/
theorem Spares.get (h : Spares other s t) : (t.get other).2 = (s.get other).2 := by
  cases hmemory : s.memory.lookup other with
  | some value => rw [get_of_some hmemory, get_of_some (h.memory.trans hmemory)]
  | none => rw [get_of_none hmemory, get_of_none (h.memory.trans hmemory), h.stored]

/-- The storages' part of a write touches its key. -/
theorem touches_writeStored (key : String) (value : Option Json) (options : StoreOptions) :
    Touches key (writeStored · key value options) := by
  cases value with
  | some value => exact touches_putStored key value options.storage
  | none =>
    simp only [writeStored]
    split
    · exact ⟨fun h => ⟨rfl, h⟩, fun s => rfl, fun _ _ _ => rfl⟩
    · exact touches_erase key

/-- What is forgotten under one key is all that the storages lose. -/
theorem stored_forget (h : Fields.Distinct s.session) (hother : other ≠ key)
    (storage : Option StorageKind) :
    (s.forget key storage).session.lookup (storageKey other) =
        s.session.lookup (storageKey other) ∧
      ((s.forget key storage).stored other).2 = (s.stored other).2 := by
  have hne : storageKey other ≠ storageKey key := fun heq => hother (storageKey_inj.1 heq)
  have hsession : (s.forget key storage).session.lookup (storageKey other) =
      s.session.lookup (storageKey other) := by
    simp only [forget]
    split
    · rfl
    · exact (Fields.lookup_swapRemove h _ _).trans (if_neg hne)
  exact ⟨hsession, stored_congr hsession (load_congr rfl rfl)⟩

/-- The rest of a write spares all other keys. -/
theorem Orderly.spares_writeMemory (h : s.Orderly) (hother : other ≠ key) :
    Spares other s (s.writeMemory key written options) := by
  cases written with
  | some value =>
    exact ⟨(lookup_memory_remember s key other value).trans (if_neg hother), rfl,
      stored_congr rfl (load_congr rfl rfl)⟩
  | none =>
    obtain ⟨hsession, hstored⟩ := stored_forget h.session hother options.storage
    exact ⟨(Fields.lookup_swapRemove h.memory _ _).trans (if_neg hother), hsession, hstored⟩

theorem session_amend (change : List (String × Json) → Option (List (String × Json))) :
    (s.amend change).1.session = s.session := by
  cases hload : s.load.2 with
  | error error => simp only [amend, load_of_error hload]
  | ok fields =>
    simp only [amend, load_of_ok hload]
    cases change fields with
    | none => rfl
    | some new => exact session_save _ new

/-- The storages' part of a write spares all other keys. -/
theorem Orderly.spares_writeStored (h : s.Orderly) (hother : other ≠ key) :
    Spares other s (s.writeStored key written options).1 := by
  have htouches := touches_writeStored key written options
  refine ⟨congrArg _ (htouches.memory s), ?_, htouches.stored h.ahead.level other fun _ => hother⟩
  obtain ⟨change, hchange⟩ | ⟨put, hsession, hput⟩ := writeStored_cases key written options
  · rw [hchange, session_amend]
  · rw [hput]
    exact hsession _ _ fun heq => hother (storageKey_inj.1 heq)

theorem Spares.trans (h : Spares other s t) (h' : Spares other t u) : Spares other s u :=
  ⟨h'.memory.trans h.memory, h'.session.trans h.session, h'.stored.trans h.stored⟩

/-- A write that succeeds makes its announcement and spares all other keys. -/
theorem Orderly.succeeded_write (h : s.Orderly) {published : List Publication}
    (hok : (s.write key written options).2 = .ok published) :
    published = announcement options key written ∧
      ∀ other, other ≠ key → Spares other s (s.write key written options).1 := by
  have htouches := touches_writeStored key written options
  have horderly : (s.writeStored key written options).1.Orderly :=
    (htouches.level h.ahead.level).2.orderly (htouches.memory s ▸ h.memory)
  have hspares : ∀ other, other ≠ key → Spares other s (s.writeStored key written options).1 :=
    fun other hother => h.spares_writeStored hother
  unfold write at hok ⊢
  generalize s.writeStored key written options = outcome at *
  obtain ⟨next, _ | _⟩ := outcome
  · cases hok
  · cases hok
    refine ⟨rfl, fun other hother => ?_⟩
    exact (hspares other hother).trans (horderly.spares_writeMemory hother)

/-- A condition of the directory that says the same about what can be read spares all keys. -/
theorem spares_within {d : StateDirectory} (h : s.saved = none → d.read? = s.directory.read?) :
    Spares other s (s.within d) :=
  ⟨rfl, rfl, stored_congr rfl (load_within h)⟩

/-- A write that succeeds makes one announcement, or none if it is silent, and no other key has
another value afterwards. -/
theorem Orderly.succeeded_step (h : s.Orderly) (hcall : call.write? = some (key, written, options))
    {published : List Publication}
    (hanswer : s.answerTo ⟨call, fault⟩ = .changed (.ok published)) :
    published = announcement options key written ∧ ∀ other, other ≠ key →
      (s.step ⟨call, fault⟩).1.memory.lookup other = s.memory.lookup other ∧
      (s.step ⟨call, fault⟩).1.session.lookup (storageKey other) =
        s.session.lookup (storageKey other) ∧
      ∀ later, (s.directory.under later).read? = (s.directory.under fault).read? →
        (s.step ⟨call, fault⟩).1.answerTo ⟨.get other, later⟩ =
          s.answerTo ⟨.get other, later⟩ := by
  have hunder := h.within (s.directory.under fault)
  obtain ⟨hwrite, hnext⟩ := perform_write (s.within (s.directory.under fault)) hcall
  have hok : ((s.within (s.directory.under fault)).write key written options).2 = .ok published :=
    StoreAnswer.changed.inj (hwrite.symm.trans hanswer)
  have hlevel := (hunder.ahead.perform call).2.level
  obtain ⟨hpublished, hspares⟩ := hunder.succeeded_write hok
  rw [← hnext] at hspares
  rw [step_fst]
  simp only
  generalize ((s.within (s.directory.under fault)).perform call).1 = next at *
  refine ⟨hpublished, fun other hother => ?_⟩
  have hspared := hspares other hother
  refine ⟨hspared.memory, hspared.session, fun later hlater => ?_⟩
  have hafter : Spares other next
      (next.within ((next.directory.behind s.directory.obstacle).under later)) :=
    spares_within fun hnone => by
      rw [show next.directory = s.directory.under fault from hlevel.unread (.inl hnone),
        s.directory.behind_under, hlater]
  have hbefore : Spares other (s.within (s.directory.under fault))
      (s.within (s.directory.under later)) :=
    spares_within fun _ => hlater
  have hget := hafter.get.trans (hspared.get.trans hbefore.get.symm)
  exact congrArg StoreAnswer.found hget

/-- A successful write leaves entries of other names in the file. -/
theorem Coherent.lookup_step (h : s.Coherent) (hcall : call.write? = some (key, written, options))
    (hlegible : ∀ other value, call.change? = some (other, some value) →
      value.Legible maxNesting) {name : String} (hname : name ≠ storageKey key) :
    (s.step ⟨call, fault⟩).1.entries.lookup name = s.entries.lookup name := by
  have hleaves : s.Leaves (s.step ⟨call, fault⟩).1 _ := leaves_step h hlegible
  rw [hleaves.lookup_eq]
  have hchange : ∀ other value, call.change? = some (other, value) → other = key := by
    intro other value hchange
    cases call <;> cases hcall <;> simp only [StoreCall.change?] at hchange <;> split at hchange <;>
      cases hchange <;> rfl
  split
  · cases hchange' : call.change? with
    | none => rfl
    | some change =>
      obtain ⟨other, value⟩ := change
      exact if_neg (hchange other value hchange' ▸ hname)
  · rfl

end Steps

/-! ## Writes after any run -/

/-- A store after some run on some directory. -/
def Reached (s : Store) : Prop := ∃ d steps, s = ((opened d).run steps).1

theorem Reached.orderly (h : s.Reached) : s.Orderly := by
  obtain ⟨d, steps, rfl⟩ := h
  exact orderly_run (orderly_opened d) steps

/-- A store after some run in which the values of the file read back as they are written: those that
it held at first, and those that calls put there.  No directory holds a file while another one
stands in its place. -/
def ReachedLegibly (s : Store) : Prop :=
  ∃ d steps, s = ((opened d).run steps).1 ∧
    (d.obstacle = some .directoryIsFile → d.file = none) ∧
    (∀ f ∈ savedFields d.file, f.2.Legible maxNesting) ∧
    ∀ step ∈ steps, ∀ key value, step.call.change? = some (key, some value) →
      value.Legible maxNesting

/-- What such a store keeps of the file is what the file holds. -/
theorem ReachedLegibly.coherent (h : s.ReachedLegibly) : s.Coherent := by
  obtain ⟨d, steps, rfl, hmissing, hfile, hsteps⟩ := h
  have hopened : (opened d).Coherent := ⟨by rintro _ ⟨⟩, hmissing, hfile⟩
  exact (entries_run hopened hsteps).1

end Store

/-- What is announced with an answer. -/
def StoreAnswer.announced : StoreAnswer → List Publication
  | changed (.ok published) => published
  | changed (.error _) | found _ | seeded _ => []

namespace Store

variable {s : Store} {call : StoreCall} {key : String} {written : Option Json}
  {options : StoreOptions}

/-- A call that sets or removes a value, on a store after any run and under any fault, fails or
succeeds as a whole.

When it fails, memory, session and file are as they were, nothing is announced, and all later
calls are answered as if it had not been made, with the same texts in the file.  A store that has
read the file does not read it again, so if the failed call was the first to read it, the later
ones must find the file as it was.

When it succeeds, it is announced once, unless it is silent, and no other key has another value
in memory or in the session, or for a later look that finds the file as it was.  Writing the file
writes all of it, so its other entries stay as they are if they read back as they are written. -/
theorem write_atomic (hs : s.Reached) (hcall : call.write? = some (key, written, options))
    (fault : Option StorageFault) :
    (∃ outcome, s.answerTo ⟨call, fault⟩ = .changed outcome) ∧
    (∀ e, s.answerTo ⟨call, fault⟩ = .changed (.error e) →
      (s.answerTo ⟨call, fault⟩).announced = [] ∧
      SameLayers s (s.step ⟨call, fault⟩).1 ∧
      ∀ later : List StoreStep,
        (s.saved = none → e = .unwritable → ∀ step ∈ ⟨call, fault⟩ :: later,
          (s.directory.under step.fault).read? = s.directory.read?) →
        (s.step ⟨call, fault⟩).1.answers (later.map .own) = s.answers (later.map .own)) ∧
    ∀ published, s.answerTo ⟨call, fault⟩ = .changed (.ok published) →
      (s.answerTo ⟨call, fault⟩).announced =
        (if options.silent then [] else [⟨Event.topic "global" key, .global key written⟩]) ∧
      (∀ other, other ≠ key →
        (s.step ⟨call, fault⟩).1.memory.lookup other = s.memory.lookup other ∧
        (s.step ⟨call, fault⟩).1.session.lookup (storageKey other) =
          s.session.lookup (storageKey other) ∧
        ∀ later, (s.directory.under later).read? = (s.directory.under fault).read? →
          (s.step ⟨call, fault⟩).1.answerTo ⟨.get other, later⟩ =
            s.answerTo ⟨.get other, later⟩) ∧
      (s.ReachedLegibly → (∀ other value, call.change? = some (other, some value) →
          value.Legible maxNesting) → ∀ name, name ≠ storageKey key →
        (s.step ⟨call, fault⟩).1.entries.lookup name = s.entries.lookup name) := by
  refine ⟨⟨_, (perform_write _ hcall).1⟩, fun e hanswer => ?_, fun published hanswer => ?_⟩
  · rw [hanswer]
    exact ⟨rfl, hs.orderly.failed_step hcall hanswer⟩
  · obtain ⟨rfl, hspared⟩ := hs.orderly.succeeded_step hcall hanswer
    rw [hanswer]
    exact ⟨rfl, hspared, fun hlegibly hlegible name hname =>
      hlegibly.coherent.lookup_step hcall hlegible hname⟩

/-- A new store on the file with a setting and a draft. -/
def settings : Store := opened (.holding (some settingsFile))

/-- Another theme that cannot be written, and what is called later. -/
def brightTheme : StoreStep :=
  ⟨.set "theme" (.string "light") (.announced (some .local)), some .unwritable⟩

def laterSteps : List StoreStep :=
  [⟨.get "theme", some .unwritable⟩, ⟨.remove "draft" (.announced none), none⟩,
    ⟨.set "theme" (.string "plain") (.announced (some .local)), none⟩]

/-- A count that can be written. -/
def firstCount : StoreStep := ⟨.set "count" (.int 1) (.announced (some .local)), none⟩

/-- A failed write and a successful one, and what they leave of the setting. -/
theorem write_atomic_settings :
    settings.answerTo brightTheme = .changed (.error .unwritable) ∧
      SameLayers settings (settings.step brightTheme).1 ∧
      (settings.step brightTheme).1.answers (laterSteps.map .own) =
        settings.answers (laterSteps.map .own) ∧
      (settings.answerTo firstCount).announced =
        [⟨Event.topic "global" "count", .global "count" (some (.int 1))⟩] ∧
      (settings.step firstCount).1.answerTo ⟨.get "theme", none⟩ =
        settings.answerTo ⟨.get "theme", none⟩ ∧
      ((settings.step firstCount).1.get "theme").2 = .ok (some (.string "dark")) ∧
      (settings.step firstCount).1.entries.lookup "goat:theme" = some (.string "dark") := by
  have hreached : settings.Reached := ⟨_, [], rfl⟩
  have hlegibly : settings.ReachedLegibly :=
    ⟨_, [], rfl, by rintro ⟨⟩, legible_settingsFile, by rintro _ ⟨⟩⟩
  have hbright : brightTheme.call.write? =
      some ("theme", some (.string "light"), .announced (some .local)) := rfl
  have hcount : firstCount.call.write? =
      some ("count", some (.int 1), .announced (some .local)) := rfl
  obtain ⟨-, hfails, -⟩ := write_atomic hreached hbright brightTheme.fault
  obtain ⟨-, -, hsucceeds⟩ := write_atomic hreached hcount firstCount.fault
  obtain ⟨-, hlayers, hlater⟩ := hfails .unwritable rfl
  obtain ⟨hannounced, hspared, hentries⟩ := hsucceeds _ rfl
  refine ⟨rfl, hlayers, hlater laterSteps ?_, hannounced, ?_, by decide +kernel, ?_⟩
  · intro _ _ step hstep
    simp only [laterSteps, List.mem_cons, List.not_mem_nil, or_false] at hstep
    rcases hstep with rfl | rfl | rfl | rfl <;> rfl
  · exact (hspared "theme" (by decide)).2.2 none rfl
  · rw [hentries hlegibly ?_ "goat:theme" (by decide)]
    · decide +kernel
    · rintro other value ⟨⟩
      exact Json.legible_int (by decide) (by decide)

/-- A new store on a file with one number. -/
def weighed : Store := opened (.holding (some "\x7b\"goat:mass\":3e50\x7d"))

/-- The conditions matter.  A theme that could not be written is found when the file cannot be read
any more, as the failed call had read it; and a count that is written changes a mass, which is read
as a number that is not the one read from its own text. -/
theorem write_noticed :
    (settings.answerTo brightTheme = .changed (.error .unwritable) ∧
      settings.answerTo ⟨.get "theme", some .unreadable⟩ = .found (.error .unreadable) ∧
      (settings.step brightTheme).1.answerTo ⟨.get "theme", some .unreadable⟩ =
        .found (.ok (some (.string "dark")))) ∧
    (weighed.step firstCount).2 = true ∧
      (weighed.reopen.get "mass").2.map (·.map Json.text) =
        .ok (some "3.0000000000000002e+50") ∧
      ((weighed.step firstCount).1.reopen.get "mass").2.map (·.map Json.text) =
        .ok (some "3e+50") := by
  have hread : (((settings.step brightTheme).1.within
      ((settings.step brightTheme).1.directory.under (some .unreadable))).get "theme").2 =
        .ok (some (.string "dark")) := by
    decide +kernel
  exact ⟨⟨rfl, rfl, congrArg StoreAnswer.found hread⟩, by decide +kernel, by decide +kernel,
    by decide +kernel⟩

end Store

end ViewSchema
