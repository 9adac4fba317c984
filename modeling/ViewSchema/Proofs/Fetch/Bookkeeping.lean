import ViewSchema.Proofs.Fetch.Record

/-!
# Bookkeeping of calls in flight

Calls settle in any order relative to those that replaced them.  At every moment of every run
the fetcher knows of each key only its latest call, and only until this one has returned.

Main results:

- Theorem `Recorded.lookup_iff`: a key is held by its latest call until this one returns.
- Theorem `Recorded.told_of_mem_returnsOf`: a call returns once, and who is told about it.
- Theorem `lookup_inFlight_resume`: a call that returns takes no entry of another call away.
- Theorem `superseded_of_aborted`: only calls that are superseded are aborted.
- Theorem `bookkeeping`: the state of the keys, and what is told about calls that return.
-/

namespace ViewSchema

open FetchHistory

variable {policy : FetchPolicy} {headers : List (String × String)} {events : List FetchEvent}
  {f : Fetcher} {notices : List FetchNotice}

/-! ## Open calls -/

/-- A key is held by its latest call until this one returns. -/
theorem Recorded.lookup_iff (h : Recorded policy events f notices) (key : String) (id : Nat) :
    f.inFlight.lookup key = some id ↔
      IsLatest policy events key id ∧ returnsOf id notices = [] := by
  rw [h.holder, h.mem_openIds_iff]
  refine and_congr_right fun hlatest => ?_
  exact and_iff_right (lt_of_keyAt hlatest.keyed)

/-- Once all calls have returned, no key is held. -/
theorem Recorded.inFlight_eq_nil (h : Recorded policy events f notices)
    (hall : ∀ id < (starts events).length, returnsOf id notices ≠ []) : f.inFlight = [] := by
  rw [List.eq_nil_iff_forall_not_mem]
  rintro ⟨key, id⟩ hmem
  obtain ⟨hlatest, hopen⟩ := (h.lookup_iff key id).1 ((Fields.lookup_eq_some_iff h.distinct).2 hmem)
  exact hall id (lt_of_keyAt hlatest.keyed) hopen

/-! ## Calls that return -/

/-- A call that has returned has done so once, and listeners were told what its outcome calls
for. -/
theorem Recorded.told_of_mem_returnsOf (h : Recorded policy events f notices) {id : Nat}
    {outcome : FetchOutcome} (houtcome : outcome ∈ returnsOf id notices) :
    returnsOf id notices = [outcome] ∧ ∃ url options, (starts events)[id]? = some (url, options) ∧
      Told policy url (policy.before url options).listens outcome (failuresOf id notices) := by
  have hended : endingOf id notices ≠ [] := by
    intro hnil
    rw [(h.endingOf_eq_nil_iff id).1 hnil] at houtcome
    cases houtcome
  have hstarted : id < (starts events).length := by
    rw [← h.started_eq]
    exact Nat.lt_of_not_le fun hle => hended (h.unstarted id hle)
  have hstart := List.getElem?_eq_getElem hstarted
  rcases h.concluded id _ _ hstart with hnone | hending
  · exact absurd hnone hended
  · obtain ⟨found, hreturned, htold⟩ := hending.told
    rw [hreturned, List.mem_singleton] at houtcome
    subst houtcome
    exact ⟨hreturned, _, _, hstart, htold⟩

/-- A call that returns takes no entry of another call away. -/
theorem lookup_inFlight_resume (h : Fields.Distinct f.inFlight) {id other : Nat} {key : String}
    (hne : other ≠ id) (hheld : f.inFlight.lookup key = some other) :
    (f.step (.resume id)).1.inFlight.lookup key = some other := by
  rw [Fetcher.step]
  rcases f.resume_spec id with hsame | ⟨call, -, verdict, hid, -, hclosed⟩
  · rw [hsame]
    exact hheld
  · rw [hclosed]
    refine (Fields.lookup_erase_eq_some_iff h).2 ⟨hheld, ?_⟩
    intro hpair
    exact hne ((Prod.mk.inj hpair).2.trans hid)

/-- A start aborts no call. -/
theorem aborted_not_mem_of_opens {url : String} {options : FetchOptions}
    {opened : Option OpenCall} {inFlight : List (String × Nat)} {id : Nat}
    (h : f.Opens url options opened inFlight notices) : .returned id .aborted ∉ notices := by
  cases h with
  | opened => simp
  | failed => exact Fetcher.aborted_not_mem_failure

/-- An event aborts only an open call that has been cancelled. -/
theorem cancelled_of_aborted_mem_step {event : FetchEvent} {id : Nat}
    (h : .returned id .aborted ∈ (f.step event).2) :
    ∃ call ∈ f.calls, call.id = id ∧ call.verdict = some .cancelled := by
  have hcase := f.step_cases event
  generalize f.step event = next at hcase h
  cases hcase with
  | start hopens => exact absurd h (aborted_not_mem_of_opens hopens)
  | change => cases h
  | @close call verdict hcall hready =>
    obtain ⟨hcancelled, hid⟩ := Fetcher.cancelled_of_aborted_mem_conclusion h
    exact ⟨call, hcall, hid.symm, hcancelled ▸ OpenCall.verdict_of_ready hready⟩

/-- In the rest of a run, a call is aborted only at a moment at which it is superseded. -/
theorem Recorded.superseded_of_aborted_mem_run (h : Recorded policy events f notices) {id : Nat}
    {later : List FetchEvent} (haborted : .returned id .aborted ∈ (f.run later).2) :
    ∃ before, before <+: later ∧ Superseded policy (events ++ before) id ∧
      returnsOf id (notices ++ (f.run before).2) = [] := by
  induction later generalizing events f notices with
  | nil => cases haborted
  | cons event rest ih =>
    rw [Fetcher.run] at haborted
    rcases List.mem_append.1 haborted with hnow | hlater
    · obtain ⟨call, hcall, rfl, hcancelled⟩ := cancelled_of_aborted_mem_step hnow
      refine ⟨[], List.nil_prefix, ?_, ?_⟩
      · rw [List.append_nil]
        exact h.cancelled call hcall hcancelled
      · rw [Fetcher.run, List.append_nil]
        exact ((h.mem_openIds_iff _).1 (List.mem_map_of_mem hcall)).2
    · obtain ⟨before, hprefix, hsuperseded, hopen⟩ := ih (h.step event) hlater
      refine ⟨event :: before, List.cons_prefix_cons.2 ⟨rfl, hprefix⟩, ?_, ?_⟩
      · rw [List.append_assoc] at hsuperseded
        exact hsuperseded
      · rw [List.append_assoc] at hopen
        exact hopen

/-- A call is aborted only when another one with its key had started before it returned. -/
theorem superseded_of_aborted {id : Nat}
    (h : .aborted ∈ returnsOf id ((Fetcher.ofPolicy policy headers).run events).2) :
    ∃ before, before <+: events ∧ Superseded policy before id ∧
      returnsOf id ((Fetcher.ofPolicy policy headers).run before).2 = [] :=
  (Recorded.initial policy headers).superseded_of_aborted_mem_run (mem_returnsOf.1 h)

/-- At every moment of every run, a key is held by the call that started last with it, until
this call returns; so no key is held once all calls have returned, and a call that returns
late leaves the entries of others alone. A call is aborted only if another one with its key
started before it returned. A call returns once, and a failure is told once to the listener of
the call, else to that of the fetcher, with the value before it is adapted; about other
outcomes and open calls nobody is told. -/
theorem bookkeeping (policy : FetchPolicy) (headers : List (String × String))
    (events : List FetchEvent) :
    let run := (Fetcher.ofPolicy policy headers).run events
    (Fields.Distinct run.1.inFlight ∧ ∀ key id, run.1.inFlight.lookup key = some id ↔
      IsLatest policy events key id ∧ returnsOf id run.2 = []) ∧
    ((∀ id < (starts events).length, returnsOf id run.2 ≠ []) → run.1.inFlight = []) ∧
    (∀ key id other, other ≠ id → run.1.inFlight.lookup key = some other →
      (run.1.step (.resume id)).1.inFlight.lookup key = some other) ∧
    (∀ id, .aborted ∈ returnsOf id run.2 → ∃ before, before <+: events ∧
      Superseded policy before id ∧
        returnsOf id ((Fetcher.ofPolicy policy headers).run before).2 = []) ∧
    (∀ id outcome, outcome ∈ returnsOf id run.2 → returnsOf id run.2 = [outcome] ∧
      ∃ url options, (starts events)[id]? = some (url, options) ∧
        Told policy url (policy.before url options).listens outcome (failuresOf id run.2)) ∧
    ∀ id, returnsOf id run.2 = [] → failuresOf id run.2 = [] := by
  intro run
  have h : Recorded policy events run.1 run.2 := recorded_run policy headers events
  refine ⟨⟨h.distinct, h.lookup_iff⟩, h.inFlight_eq_nil, ?_, ?_, ?_, ?_⟩
  · intro key id other hne hheld
    exact lookup_inFlight_resume h.distinct hne hheld
  · intro id haborted
    exact superseded_of_aborted haborted
  · intro id outcome houtcome
    exact h.told_of_mem_returnsOf houtcome
  · intro id hnone
    rw [← failuresOf_endingOf, (h.endingOf_eq_nil_iff id).2 hnone]
    rfl

/-- A policy with a least time, a listener and an adaption that hides all values. -/
def searchPolicy : FetchPolicy :=
  { FetchPolicy.standard with minLatency := 300, listens := true, after := fun _ => .null }

/-- Two equal searches and one without an address; the first returns after the second started. -/
def searches : List FetchEvent :=
  [.start "https://api.test/search" .standard, .start "https://api.test/search" .standard,
    .start "/search" .standard, .rest 0, .resume 0]

theorem bookkeeping_searches :
    let run := (Fetcher.ofPolicy searchPolicy []).run searches
    IsLatest searchPolicy searches "GET https://api.test/search" 1 ∧ returnsOf 1 run.2 = [] ∧
      (∃ before, before <+: searches ∧ Superseded searchPolicy before 0 ∧
        returnsOf 0 ((Fetcher.ofPolicy searchPolicy []).run before).2 = []) ∧
      returnsOf 2 run.2 = [.failed .null] ∧
      failuresOf 2 run.2 = [(.fetcher,
        (FetchError.invalidUrl "/search (no api base configured)").toJson "/search")] := by
  intro run
  obtain ⟨⟨-, hheld⟩, -, -, haborted, htold, -⟩ := bookkeeping searchPolicy [] searches
  have hlookup : run.1.inFlight.lookup "GET https://api.test/search" = some 1 := by
    decide +kernel
  have hreturned : .aborted ∈ returnsOf 0 run.2 := List.mem_singleton.2 rfl
  have hfailed : .failed .null ∈ returnsOf 2 run.2 := List.mem_singleton.2 rfl
  obtain ⟨hlatest, hopen⟩ := (hheld _ _).1 hlookup
  exact ⟨hlatest, hopen, haborted 0 hreturned, (htold 2 _ hfailed).1, rfl⟩

end ViewSchema
