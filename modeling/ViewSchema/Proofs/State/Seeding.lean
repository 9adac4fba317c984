import Mathlib.Data.List.TakeWhile
import ViewSchema.Proofs.Json.Merging
import ViewSchema.Proofs.State.Atomicity

/-!
# Seeding

A seed goes through its initial values one after the other and puts into memory what the storages
have under the key, or else the initial value.  A key of the session needs no file, any other key
does.  Where the file cannot be read, the seed ends at the first key that the session does not
have, and the values in front of it stay in memory.

Main results:

- Definition `Store.Readable`: the keys that can be looked up in the storages.
- Theorems `Store.Level.memory_seed` and `Store.Level.seed_snd`: what a seed does, as a whole.
- Theorem `Store.seed_keeps_stored`: what a seed leaves in the layers after any run, and when a
  seed that fails leaves memory as it was.
-/

namespace ViewSchema

namespace Store

variable {s t : Store} {d : StateDirectory} {key : String} {value : Json}
  {initial rest : List (String × Json)}

/-! ## What the storages have -/

/-- The value of local storage, as far as it can be read. -/
def localValue? (s : Store) (key : String) : Option Json :=
  s.load.2.toOption.bind fun fields => fields.lookup (storageKey key)

/-- The value of the storages: of the session, else of local storage. -/
def persisted? (s : Store) (key : String) : Option Json :=
  (s.session.lookup (storageKey key)).or (s.localValue? key)

/-- A key can be looked up if the session has it, or else if local storage can be read. -/
def Readable (s : Store) (key : String) : Prop :=
  (s.session.lookup (storageKey key)).isSome ∨ s.load.2.isOk

instance (s : Store) : DecidablePred s.Readable := fun _ => inferInstanceAs (Decidable (_ ∨ _))

/-- What is in the session goes before what is in the file. -/
theorem persisted?_of_session (h : s.session.lookup (storageKey key) = some value) :
    s.persisted? key = some value := by
  rw [persisted?, h, Option.some_or]

/-- Loading that succeeds gives fields. -/
theorem exists_load_eq_ok (h : s.load.2.isOk) : ∃ fields, s.load.2 = .ok fields := by
  cases hload : s.load.2 with
  | ok fields => exact ⟨fields, rfl⟩
  | error e =>
    rw [hload] at h
    cases h

/-- Where the storages can be read, a key has there what is persisted. -/
theorem stored_of_readable (h : s.Readable key) : (s.stored key).2 = .ok (s.persisted? key) := by
  rw [stored_snd]
  cases hsession : s.session.lookup (storageKey key) with
  | some value => rw [persisted?_of_session hsession]
  | none =>
    rcases h with hsome | hload
    · rw [hsession] at hsome
      cases hsome
    · obtain ⟨fields, hfields⟩ := exists_load_eq_ok hload
      rw [persisted?, hsession, Option.none_or, localValue?, hfields]
      rfl

/-- Elsewhere looking into them is an error and changes nothing. -/
theorem stored_of_not_readable (h : ¬s.Readable key) :
    s.stored key = (s, .error .unreadable) := by
  obtain ⟨hsession, hload⟩ := not_or.1 h
  rw [Option.not_isSome_iff_eq_none] at hsession
  unfold stored
  rw [hsession]
  cases hfields : s.load.2 with
  | ok fields =>
    rw [hfields] at hload
    exact absurd rfl hload
  | error e => rw [load_of_error hfields, eq_unreadable_of_load hfields]

/-- All keys can be looked up if the file can be read, or if the session has them all. -/
theorem forall_readable_iff (s : Store) (initial : List (String × Json)) :
    (∀ field ∈ initial, s.Readable field.1) ↔
      s.load.2.isOk ∨ ∀ field ∈ initial, (s.session.lookup (storageKey field.1)).isSome := by
  by_cases hload : s.load.2.isOk
  · exact iff_of_true (fun field _ => .inr hload) (.inl hload)
  · rw [or_iff_right hload]
    exact forall₂_congr fun field _ => or_iff_left hload

/-- A file that can be read is what local storage has. -/
theorem Coherent.localValue?_eq (h : s.Coherent) (hload : s.load.2.isOk) (key : String) :
    s.localValue? key = s.entries.lookup (storageKey key) := by
  obtain ⟨fields, hfields⟩ := exists_load_eq_ok hload
  have hentries : fields = s.entries := (leaves_load h (load_of_ok hfields)).2 fields rfl
  rw [localValue?, hfields, hentries]
  rfl

namespace Level

/-- Level stores have persisted the same. -/
theorem persisted?_eq (h : Level d s t) : s.persisted? = t.persisted? := by
  funext key
  rw [persisted?, persisted?, localValue?, localValue?, h.session_eq, h.load_eq]

/-- Level stores can be read for the same keys. -/
theorem readable_iff (h : Level d s t) (key : String) : s.Readable key ↔ t.Readable key := by
  rw [Readable, Readable, h.session_eq, h.load_eq]

end Level

/-! ## A seed as a whole -/

/-- What a seed puts into memory: values for the fields in front of the first key that cannot be
looked up. -/
def seeded (s : Store) (initial : List (String × Json)) : List (String × Json) :=
  (initial.takeWhile fun field => s.Readable field.1).map fun field =>
    (field.1, (s.persisted? field.1).getD field.2)

/-- The store after the first value of a seed. -/
def seedOne (s : Store) (key : String) (value : Json) : Store :=
  (s.stored key).1.remember key ((s.persisted? key).getD value)

/-- A first key that can be read is seeded, and the others after it. -/
theorem seed_cons_of_readable (h : s.Readable key) :
    s.seed ((key, value) :: rest) = (s.seedOne key value).seed rest := by
  have hstored : s.stored key = ((s.stored key).1, .ok (s.persisted? key)) :=
    Prod.ext rfl (stored_of_readable h)
  rw [seed, hstored]
  rfl

/-- At a first key that cannot be read seeding stops. -/
theorem seed_cons_of_not_readable (h : ¬s.Readable key) :
    s.seed ((key, value) :: rest) = (s, .error .unreadable) := by
  rw [seed, stored_of_not_readable h]

/-- A seeded key has what is persisted in memory, else its initial value. -/
theorem memory_seedOne (s : Store) (key : String) (value : Json) :
    (s.seedOne key value).memory = Fields.set s.memory key ((s.persisted? key).getD value) := by
  rw [seedOne, remember, memory_stored]

namespace Level

/-- A value that is seeded changes nothing but memory, and the file may have been read. -/
theorem seedOne (h : Level d s t) (key : String) (value : Json) :
    Level d (s.seedOne key value) t :=
  (h.stored_left key).of_congr rfl rfl rfl

/-- The storages are not changed by a seed. -/
theorem seed (h : Level d s t) (initial : List (String × Json)) :
    Level d (s.seed initial).1 t := by
  induction initial generalizing s with
  | nil => exact h
  | cons field rest ih =>
    by_cases hreadable : s.Readable field.1
    · rw [seed_cons_of_readable hreadable]
      exact ih (h.seedOne field.1 field.2)
    · rw [seed_cons_of_not_readable hreadable]
      exact h

/-- A seed succeeds if all of its keys can be looked up. -/
theorem seed_snd (h : Level d s t) (initial : List (String × Json)) :
    (s.seed initial).2 =
      if ∀ field ∈ initial, t.Readable field.1 then .ok () else .error .unreadable := by
  induction initial generalizing s with
  | nil => simp [Store.seed]
  | cons field rest ih =>
    by_cases hreadable : s.Readable field.1
    · rw [seed_cons_of_readable hreadable, ih (h.seedOne field.1 field.2)]
      have hfirst := (h.readable_iff field.1).1 hreadable
      simp only [List.forall_mem_cons, hfirst, true_and]
    · rw [seed_cons_of_not_readable hreadable]
      have hfirst := mt (h.readable_iff field.1).2 hreadable
      have hall : ¬∀ field' ∈ field :: rest, t.Readable field'.1 := fun hall =>
        hfirst (List.forall_mem_cons.1 hall).1
      rw [if_neg hall]

/-- What is in memory after a seed, whether it succeeds or not. -/
theorem memory_seed (h : Level d s t) (initial : List (String × Json)) :
    (s.seed initial).1.memory = Fields.setAll s.memory (t.seeded initial) := by
  -- The store `s` goes on from value to value, while `t` has the storages of the start.
  induction initial generalizing s with
  | nil => rfl
  | cons field rest ih =>
    have hfirst := h.readable_iff field.1
    by_cases hreadable : s.Readable field.1
    · have hseeded : t.seeded (field :: rest) =
          (field.1, (t.persisted? field.1).getD field.2) :: t.seeded rest := by
        rw [seeded, List.takeWhile_cons_of_pos (by simpa using hfirst.1 hreadable)]
        rfl
      rw [seed_cons_of_readable hreadable, ih (h.seedOne field.1 field.2), memory_seedOne, hseeded,
        h.persisted?_eq]
      rfl
    · have hseeded : t.seeded (field :: rest) = [] := by
        rw [seeded, List.takeWhile_cons_of_neg (by simpa using mt hfirst.2 hreadable)]
        rfl
      rw [seed_cons_of_not_readable hreadable, hseeded]
      rfl

end Level

/-! ## Memory after a seed -/

/-- No key is seeded twice if none has two initial values. -/
theorem distinct_seeded (h : Fields.Distinct initial) (s : Store) :
    Fields.Distinct (s.seeded initial) := by
  have hnames : Fields.names (s.seeded initial) =
      Fields.names (initial.takeWhile fun field => s.Readable field.1) := by
    simp [Fields.names, seeded]
  rw [Fields.Distinct, hnames]
  exact h.sublist ((List.takeWhile_sublist _).map _)

/-- The value that a seed puts under a key that it comes to. -/
theorem lookup_seeded (s : Store) (initial : List (String × Json)) (key : String) :
    (s.seeded initial).lookup key =
      ((initial.takeWhile fun field => s.Readable field.1).lookup key).map fun value =>
        (s.persisted? key).getD value := by
  unfold seeded
  generalize (initial.takeWhile fun field => s.Readable field.1) = reached
  induction reached with
  | nil => rfl
  | cons field rest ih =>
    rw [List.map_cons, Fields.lookup_cons, Fields.lookup_cons, ih]
    by_cases hkey : key = field.1
    · rw [if_pos hkey, if_pos hkey, hkey, Option.map_some]
    · rw [if_neg hkey, if_neg hkey]

/-- A seed that can look up all of its keys comes to all of them. -/
theorem lookup_seeded_of_readable (h : ∀ field ∈ initial, s.Readable field.1) (key : String) :
    (s.seeded initial).lookup key =
      (initial.lookup key).map fun value => (s.persisted? key).getD value := by
  have hall : (initial.takeWhile fun field => s.Readable field.1) = initial :=
    List.takeWhile_eq_self_iff.2 fun field hfield => by simpa using h field hfield
  rw [lookup_seeded, hall]

/-- The fields in front of the first one that the session does not have. -/
def inSession (s : Store) (initial : List (String × Json)) : List (String × Json) :=
  initial.takeWhile fun field => (s.session.lookup (storageKey field.1)).isSome

/-- What is taken from the session is there. -/
theorem isSome_of_mem_inSession {field : String × Json} (h : field ∈ s.inSession initial) :
    ∃ value, s.session.lookup (storageKey field.1) = some value := by
  have hsome := List.mem_takeWhile_imp h
  exact Option.isSome_iff_exists.1 hsome

/-- Where local storage cannot be read, a seed comes to the fields in front of the first one that
the session does not have. -/
theorem takeWhile_readable (h : ¬s.load.2.isOk) (initial : List (String × Json)) :
    (initial.takeWhile fun field => s.Readable field.1) = s.inSession initial := by
  have hsession : ∀ key, s.Readable key ↔ (s.session.lookup (storageKey key)).isSome :=
    fun key => or_iff_left h
  simp only [inSession, hsession, Bool.decide_eq_true]

/-- It then puts the values of the session under them. -/
theorem lookup_setAll_seeded (h : ¬s.load.2.isOk) (hinitial : Fields.Distinct initial)
    (fields : List (String × Json)) (key : String) :
    (Fields.setAll fields (s.seeded initial)).lookup key =
      if key ∈ Fields.names (s.inSession initial) then s.session.lookup (storageKey key)
      else fields.lookup key := by
  rw [Fields.lookup_setAll (distinct_seeded hinitial s), lookup_seeded, takeWhile_readable h]
  by_cases hmem : key ∈ Fields.names (s.inSession initial)
  · obtain ⟨value, hlookup⟩ := Fields.mem_names_iff.1 hmem
    obtain ⟨found, hfound⟩ := isSome_of_mem_inSession (Fields.mem_of_lookup hlookup)
    rw [if_pos hmem, hlookup, persisted?_of_session hfound, hfound]
    rfl
  · rw [if_neg hmem, Fields.lookup_eq_none_iff.2 hmem]
    rfl

/-- So nothing changes just where each of these values is in memory already. -/
theorem setAll_seeded_eq_self_iff (h : ¬s.load.2.isOk) (hinitial : Fields.Distinct initial)
    (fields : List (String × Json)) : Fields.setAll fields (s.seeded initial) = fields ↔
      ∀ field ∈ s.inSession initial,
        fields.lookup field.1 = s.session.lookup (storageKey field.1) := by
  rw [Fields.setAll_eq_self_iff (distinct_seeded hinitial s), seeded, takeWhile_readable h,
    List.forall_mem_map]
  refine forall₂_congr fun field hfield => ?_
  obtain ⟨value, hvalue⟩ := isSome_of_mem_inSession hfield
  rw [persisted?_of_session hvalue, hvalue, Option.getD_some]

/-! ## Seeding after any run -/

/-- A seed under a fault, on a store with distinct names: the storages stay as they are, and memory
and the answer are those of the storages under the fault. -/
theorem Orderly.seed_step (h : s.Orderly) (initial : List (String × Json))
    (fault : Option StorageFault) :
    let found := s.within (s.directory.under fault)
    let next := (s.step ⟨.seed initial, fault⟩).1
    next.session = s.session ∧ next.directory = s.directory ∧
      next.memory = Fields.setAll s.memory (found.seeded initial) ∧
      s.answerTo ⟨.seed initial, fault⟩ = .seeded
        (if ∀ field ∈ initial, found.Readable field.1 then .ok () else .error .unreadable) := by
  have hlevel := (h.within (s.directory.under fault)).ahead.level
  have hnext := hlevel.seed initial
  refine ⟨hnext.session_eq.symm, ?_, hlevel.memory_seed initial,
    congrArg StoreAnswer.seeded (hlevel.seed_snd initial)⟩
  have hdirectory : ((s.within (s.directory.under fault)).seed initial).1.directory =
      s.directory.under fault := hnext.directory_eq.symm
  calc (s.step ⟨.seed initial, fault⟩).1.directory
      = ((s.within (s.directory.under fault)).seed initial).1.directory.behind
          s.directory.obstacle := rfl
    _ = (s.directory.under fault).behind s.directory.obstacle := by rw [hdirectory]
    _ = s.directory := s.directory.behind_under fault

/-- A seed after any run and under any fault announces nothing, and leaves the session and the file
as they are.

If the session has all of its keys, or else local storage can be read, it succeeds.  Every key of
it then has in memory the value of the session, else that of local storage, else the initial one,
and any other key has what it had.

Otherwise it fails.  The keys in front of the first one that the session does not have are then in
memory with their values of the session, and any other key has what it had.  So memory is as it
was before the failed seed if it had these values already, and not otherwise.

Local storage is what the file holds, for a store that has kept nothing else of it. -/
theorem seed_keeps_stored (hs : s.Reached) (hinitial : Fields.Distinct initial)
    (fault : Option StorageFault) :
    let found := s.within (s.directory.under fault)
    let next := (s.step ⟨.seed initial, fault⟩).1
    let answer := s.answerTo ⟨.seed initial, fault⟩
    answer.announced = [] ∧ next.session = s.session ∧ next.directory = s.directory ∧
    (if found.load.2.isOk ∨ ∀ field ∈ initial, (s.session.lookup (storageKey field.1)).isSome then
      answer = .seeded (.ok ()) ∧
      ∀ key, next.memory.lookup key = match initial.lookup key with
        | some value => some
          (((s.session.lookup (storageKey key)).or (found.localValue? key)).getD value)
        | none => s.memory.lookup key
    else
      answer = .seeded (.error .unreadable) ∧
      (∀ key, next.memory.lookup key =
        if key ∈ Fields.names (s.inSession initial) then s.session.lookup (storageKey key)
        else s.memory.lookup key) ∧
      (next.memory = s.memory ↔ ∀ field ∈ s.inSession initial,
        s.memory.lookup field.1 = s.session.lookup (storageKey field.1))) ∧
    (s.Coherent → found.load.2.isOk → ∀ key,
      found.localValue? key = s.entries.lookup (storageKey key)) := by
  intro found next answer
  obtain ⟨hsession, hdirectory, hmemory, hanswer⟩ := hs.orderly.seed_step initial fault
  have hreadable : (∀ field ∈ initial, found.Readable field.1) ↔ found.load.2.isOk ∨
      ∀ field ∈ initial, (s.session.lookup (storageKey field.1)).isSome :=
    found.forall_readable_iff initial
  have hannounced : answer.announced = [] := by
    rw [show answer = _ from hanswer]
    rfl
  refine ⟨hannounced, hsession, hdirectory, ?_, fun hcoherent hload key => ?_⟩
  · by_cases hall : ∀ field ∈ initial, found.Readable field.1
    · rw [if_pos (hreadable.1 hall)]
      rw [if_pos hall] at hanswer
      refine ⟨hanswer, fun key => ?_⟩
      rw [show next.memory = _ from hmemory, Fields.lookup_setAll (distinct_seeded hinitial found),
        lookup_seeded_of_readable hall]
      cases initial.lookup key <;> rfl
    · have hload : ¬found.load.2.isOk := fun hload => hall (hreadable.2 (.inl hload))
      rw [if_neg (mt hreadable.2 hall)]
      rw [if_neg hall] at hanswer
      refine ⟨hanswer, fun key => ?_, ?_⟩
      · rw [show next.memory = _ from hmemory]
        exact lookup_setAll_seeded hload hinitial s.memory key
      · rw [show next.memory = _ from hmemory]
        exact setAll_seeded_eq_self_iff hload hinitial s.memory
  · have hentries : found.entries = s.entries :=
      congrArg savedFields (under_eq s.directory fault).1
    rw [← hentries]
    exact (hcoherent.under fault).localValue?_eq hload key

/-- A draft of the session, and a later one in memory only. -/
def draftSteps : List StoreStep :=
  [⟨.set "draft" (.int 1) (.announced (some .session)), none⟩,
    ⟨.set "draft" (.int 2) (.announced none), none⟩]

/-- A store on settings, with these drafts. -/
def drafted : Store := ((opened (.holding (some settingsFile))).run draftSteps).1

/-- What the application begins with. -/
def firstValues : List (String × Json) :=
  [("draft", .int 0), ("theme", .string "light"), ("page", .int 1)]

/-- Initial values for a draft in the session, a theme in the file and a page that is new. -/
theorem seed_keeps_stored_drafted : Fields.Distinct firstValues ∧
    ∃ next, next = (drafted.step ⟨.seed firstValues, none⟩).1 ∧
      next.memory.lookup "draft" = some (.int 1) ∧
      next.memory.lookup "theme" = some (.string "dark") ∧
      next.memory.lookup "page" = some (.int 1) := by
  have hdistinct : Fields.Distinct firstValues := by simp [firstValues, Fields.Distinct]
  have hreached : drafted.Reached := ⟨_, draftSteps, rfl⟩
  obtain ⟨-, -, -, hseed, -⟩ := seed_keeps_stored hreached hdistinct none
  rw [if_pos (.inl (by decide +kernel))] at hseed
  obtain ⟨-, hlookup⟩ := hseed
  refine ⟨hdistinct, _, rfl, ?_, ?_, ?_⟩
  · rw [hlookup]
    decide +kernel
  · rw [hlookup]
    decide +kernel
  · rw [hlookup]
    decide +kernel

/-- A seed that fails at its second key has put the first one into memory. -/
theorem exists_seed_failed : ∃ (s : Store) (initial : List (String × Json)),
    s.Reached ∧ Fields.Distinct initial ∧
      s.answerTo ⟨.seed initial, none⟩ = .seeded (.error .unreadable) ∧
      s.memory.lookup "draft" = some (.int 2) ∧
      (s.step ⟨.seed initial, none⟩).1.memory.lookup "draft" = some (.int 1) :=
  ⟨((opened ⟨none, false, some .fileIsDirectory⟩).run draftSteps).1,
    firstValues, ⟨_, draftSteps, rfl⟩, by simp [firstValues, Fields.Distinct], rfl, rfl, rfl⟩

end Store

end ViewSchema
