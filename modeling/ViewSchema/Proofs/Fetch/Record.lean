import ViewSchema.Proofs.Fetch.Step

/-!
# The record of a run

The state of a fetcher after any sequence of events is described by the events and the notices
so far: which calls are open, which call holds a key, and why the request of an open call has
come to an end.  The description is an invariant, and there is one lemma for each thing that an
event can do.

Main results:

- Theorems `Recorded.answers`, `Recorded.close` and `Recorded.start`: changing, closing and
  starting calls keeps the record.
- Theorem `Recorded.step`: one event keeps the record.
- Theorem `recorded_run`: every run from a new fetcher is recorded.
-/

namespace ViewSchema

open FetchHistory

/-- What the events and the notices of a run say about the fetcher. -/
structure Recorded (policy : FetchPolicy) (events : List FetchEvent) (f : Fetcher)
    (notices : List FetchNotice) : Prop where
  policy_eq : f.policy = policy
  started_eq : f.started = (starts events).length
  nodup : f.openIds.Nodup
  origin : ∀ call ∈ f.calls, call.StartedBy policy events
  /-- A call is open from its start to its end. -/
  open_iff : ∀ id, id ∈ f.openIds ↔ id < f.started ∧ endingOf id notices = []
  unstarted : ∀ id, f.started ≤ id → endingOf id notices = []
  concluded : ∀ id url options, (starts events)[id]? = some (url, options) →
    endingOf id notices = [] ∨
      Concluded policy id url (policy.before url options).listens (endingOf id notices)
  distinct : Fields.Distinct f.inFlight
  /-- A key is held by its latest call, while this one is open. -/
  holder : ∀ key id, f.inFlight.lookup key = some id ↔
    IsLatest policy events key id ∧ id ∈ f.openIds
  superseded : ∀ call ∈ f.calls, Superseded policy events call.id → call.verdict ≠ none
  cancelled : ∀ call ∈ f.calls, call.verdict = some .cancelled →
    Superseded policy events call.id

namespace Recorded

variable {policy : FetchPolicy} {events : List FetchEvent} {event : FetchEvent} {f : Fetcher}
  {notices : List FetchNotice} {change : OpenCall → OpenCall}

/-- A new fetcher has an empty record. -/
theorem initial (policy : FetchPolicy) (headers : List (String × String)) :
    Recorded policy [] (.ofPolicy policy headers) [] where
  policy_eq := rfl
  started_eq := rfl
  nodup := .nil
  origin := by simp [Fetcher.ofPolicy]
  open_iff := by simp [Fetcher.ofPolicy, Fetcher.openIds]
  unstarted := fun _ _ => rfl
  concluded := by simp [starts]
  distinct := .nil
  holder := by simp [Fetcher.ofPolicy, Fetcher.openIds]
  superseded := by simp [Fetcher.ofPolicy]
  cancelled := by simp [Fetcher.ofPolicy]

/-- The key of an open call is the one of its start. -/
theorem keyAt_eq (h : Recorded policy events f notices) {call : OpenCall}
    (hcall : call ∈ f.calls) : keyAt policy events call.id = some call.key := by
  obtain ⟨url, options, hstart, -, -, hkey, -⟩ := h.origin call hcall
  rw [keyAt, hstart, hkey]
  rfl

/-- An event that only answers calls keeps the record. -/
theorem answers (h : Recorded policy events f notices) (hevent : event.start? = none)
    (hkeeps : OpenCall.Keeps change) (hanswers : OpenCall.Answers change) :
    Recorded policy (events ++ [event]) (f.mapCalls change) notices where
  policy_eq := h.policy_eq
  started_eq := by rw [starts_snoc_of_none hevent]; exact h.started_eq
  nodup := by rw [Fetcher.openIds_mapCalls hkeeps]; exact h.nodup
  origin := by
    intro call' hcall'
    obtain ⟨call, hcall, rfl⟩ := List.mem_map.1 hcall'
    exact ((h.origin call hcall).kept hkeeps).append _
  open_iff := by rw [Fetcher.openIds_mapCalls hkeeps]; exact h.open_iff
  unstarted := h.unstarted
  concluded := by rw [starts_snoc_of_none hevent]; exact h.concluded
  distinct := h.distinct
  holder := by
    intro key id
    rw [isLatest_snoc_of_none_iff hevent, Fetcher.openIds_mapCalls hkeeps]
    exact h.holder key id
  superseded := by
    intro call' hcall' hsuperseded
    obtain ⟨call, hcall, rfl⟩ := List.mem_map.1 hcall'
    rw [superseded_snoc_of_none_iff hevent, hkeeps.id] at hsuperseded
    rcases hanswers call with hsame | ⟨-, result, hanswered⟩
    · rw [hsame]
      exact h.superseded call hcall hsuperseded
    · simp [hanswered]
  cancelled := by
    intro call' hcall' hcancelled
    obtain ⟨call, hcall, rfl⟩ := List.mem_map.1 hcall'
    rw [superseded_snoc_of_none_iff hevent, hkeeps.id]
    rcases hanswers call with hsame | ⟨-, result, hanswered⟩
    · exact h.cancelled call hcall (hsame ▸ hcancelled)
    · simp [hanswered] at hcancelled

/-! ## Closing a call -/

section Close

variable {call : OpenCall} {ending : List FetchNotice}

/-- An open call has started and not ended. -/
theorem open_of_mem (h : Recorded policy events f notices) (hcall : call ∈ f.calls) :
    call.id < f.started ∧ endingOf call.id notices = [] :=
  (h.open_iff call.id).1 (List.mem_map_of_mem hcall)

/-- A conclusion ends its own call and no other. -/
theorem endingOf_close (h : Recorded policy events f notices) (hcall : call ∈ f.calls)
    (hending : Concluded policy call.id call.url call.options.listens ending) (id : Nat) :
    endingOf id (notices ++ ending) = if id = call.id then ending else endingOf id notices := by
  rw [endingOf_append]
  split
  · rename_i hid
    rw [hid, (h.open_of_mem hcall).2, hending.endingOf_eq, List.nil_append]
  · rename_i hid
    rw [hending.endingOf_of_ne hid, List.append_nil]

theorem open_iff_closeCall (h : Recorded policy events f notices) (hcall : call ∈ f.calls)
    (hending : Concluded policy call.id call.url call.options.listens ending) (id : Nat) :
    id ∈ (f.closeCall call).openIds ↔ id < f.started ∧ endingOf id (notices ++ ending) = [] := by
  rw [Fetcher.mem_openIds_closeCall, h.open_iff id, h.endingOf_close hcall hending]
  split
  · rename_i hid
    simp [hid, hending.ne_nil]
  · rename_i hid
    exact and_iff_left hid

theorem concluded_closeCall (h : Recorded policy events f notices) (hcall : call ∈ f.calls)
    (hending : Concluded policy call.id call.url call.options.listens ending) (id : Nat)
    (url : String) (options : FetchOptions) (hstart : (starts events)[id]? = some (url, options)) :
    endingOf id (notices ++ ending) = [] ∨
      Concluded policy id url (policy.before url options).listens
        (endingOf id (notices ++ ending)) := by
  rw [h.endingOf_close hcall hending]
  split
  · rename_i hid
    subst hid
    obtain ⟨url', options', hstart', hurl, hoptions, -⟩ := h.origin call hcall
    rw [hstart, Option.some.injEq, Prod.mk.injEq] at hstart'
    obtain ⟨rfl, rfl⟩ := hstart'
    rw [hurl, hoptions] at hending
    exact .inr hending
  · exact h.concluded id url options hstart

theorem holder_closeCall (h : Recorded policy events f notices) (hcall : call ∈ f.calls)
    (key : String) (id : Nat) : (f.closeCall call).inFlight.lookup key = some id ↔
      IsLatest policy events key id ∧ id ∈ (f.closeCall call).openIds := by
  refine (Fields.lookup_erase_eq_some_iff h.distinct).trans ?_
  rw [h.holder, Fetcher.mem_openIds_closeCall, and_assoc]
  refine and_congr_right fun hlatest => and_congr_right fun _ => ?_
  -- The latest call of a key and the closed call can only be the same together with their keys.
  constructor
  · intro hpair hid
    subst hid
    have hkeys := hlatest.keyed.symm.trans (h.keyAt_eq hcall)
    exact hpair (by rw [Option.some.inj hkeys])
  · intro hne hpair
    exact hne (Prod.mk.inj hpair).2

/-- Closing a call with a conclusion keeps the record. -/
theorem close (h : Recorded policy events f notices) (hevent : event.start? = none)
    (hcall : call ∈ f.calls)
    (hending : Concluded policy call.id call.url call.options.listens ending) :
    Recorded policy (events ++ [event]) (f.closeCall call) (notices ++ ending) where
  policy_eq := h.policy_eq
  started_eq := by rw [starts_snoc_of_none hevent]; exact h.started_eq
  nodup := h.nodup.sublist (List.filter_sublist.map _)
  origin := by
    intro other hmem
    exact (h.origin other (Fetcher.mem_calls_closeCall.1 hmem).1).append _
  open_iff := h.open_iff_closeCall hcall hending
  unstarted := by
    intro id hid
    have hlt : call.id < f.started := (h.open_of_mem hcall).1
    have hid : f.started ≤ id := hid
    rw [h.endingOf_close hcall hending, if_neg (by omega)]
    exact h.unstarted id hid
  concluded := by rw [starts_snoc_of_none hevent]; exact h.concluded_closeCall hcall hending
  distinct := h.distinct.erase _
  holder := by
    intro key id
    rw [isLatest_snoc_of_none_iff hevent]
    exact h.holder_closeCall hcall key id
  superseded := by
    intro other hmem hsuperseded
    rw [superseded_snoc_of_none_iff hevent] at hsuperseded
    exact h.superseded other (Fetcher.mem_calls_closeCall.1 hmem).1 hsuperseded
  cancelled := by
    intro other hmem hcancelled
    rw [superseded_snoc_of_none_iff hevent]
    exact h.cancelled other (Fetcher.mem_calls_closeCall.1 hmem).1 hcancelled

end Close

/-! ## Starting a call -/

section Start

variable {url : String} {options : FetchOptions} {opened : Option OpenCall}
  {inFlight : List (String × Nat)} {later : List FetchNotice}

/-- The next call has no key yet. -/
theorem keyAt_started (h : Recorded policy events f notices) (key : String) :
    keyAt policy events f.started ≠ some key := by
  intro hkey
  have hlt := lt_of_keyAt hkey
  rw [← h.started_eq] at hlt
  exact Nat.lt_irrefl _ hlt

/-- The next call is not open yet. -/
theorem started_not_mem_openIds (h : Recorded policy events f notices) :
    f.started ∉ f.openIds :=
  fun hmem => Nat.lt_irrefl _ ((h.open_iff _).1 hmem).1

theorem mem_openIds_afterStart (hopens : f.Opens url options opened inFlight later)
    {key : String} (id : Nat) : id ∈ (f.afterStart key opened inFlight).openIds ↔
      id ∈ f.openIds ∨ id = f.started ∧ opened.isSome := by
  rw [Fetcher.openIds_afterStart, List.mem_append]
  refine or_congr_right ?_
  cases opened with
  | none => simp
  | some call =>
    have hcall : call ∈ (some call).toList := by simp
    simp [(hopens.eq_of_mem hcall).1]

theorem nodup_afterStart (h : Recorded policy events f notices)
    (hopens : f.Opens url options opened inFlight later) {key : String} :
    (f.afterStart key opened inFlight).openIds.Nodup := by
  rw [Fetcher.openIds_afterStart, List.nodup_append]
  refine ⟨h.nodup, by cases opened <;> simp, ?_⟩
  rintro id hid other hother rfl
  obtain ⟨call, hcall, heq⟩ := List.mem_map.1 hother
  rw [← heq, (hopens.eq_of_mem hcall).1] at hid
  exact h.started_not_mem_openIds hid

theorem open_iff_afterStart (h : Recorded policy events f notices)
    (hopens : f.Opens url options opened inFlight later) {key : String} (id : Nat) :
    id ∈ (f.afterStart key opened inFlight).openIds ↔
      id < f.started + 1 ∧ endingOf id (notices ++ later) = [] := by
  rw [mem_openIds_afterStart hopens, endingOf_append, List.append_eq_nil_iff]
  by_cases hid : id = f.started
  · subst hid
    have hclosed := h.started_not_mem_openIds
    rw [h.unstarted _ (Nat.le_refl _)]
    rcases hopens.endingOf_started with ⟨hsome, hquiet⟩ | ⟨hnone, hending⟩
    · simp [hsome, hquiet]
    · simp [hclosed, hnone, hending.ne_nil]
  · have hbound : id < f.started + 1 ↔ id < f.started := by omega
    rw [hopens.endingOf_of_ne hid, h.open_iff id]
    simp [hid, hbound]

theorem concluded_afterStart (h : Recorded policy events f notices)
    (hopens : f.Opens url options opened inFlight later) (id : Nat) (url' : String)
    (options' : FetchOptions)
    (hstart : (starts (events ++ [.start url options]))[id]? = some (url', options')) :
    endingOf id (notices ++ later) = [] ∨
      Concluded policy id url' (policy.before url' options').listens
        (endingOf id (notices ++ later)) := by
  rw [starts_snoc_start] at hstart
  rw [endingOf_append]
  by_cases hid : id = f.started
  · subst hid
    rw [h.started_eq, List.getElem?_concat_length, Option.some.injEq, Prod.mk.injEq] at hstart
    obtain ⟨rfl, rfl⟩ := hstart
    rw [h.unstarted _ (Nat.le_refl _), List.nil_append]
    rcases hopens.endingOf_started with ⟨-, hquiet⟩ | ⟨-, hending⟩
    · exact .inl hquiet
    · rw [h.policy_eq] at hending
      exact .inr hending
  · have hlt : id < (starts events).length := by
      have hbound := (List.getElem?_eq_some_iff.1 hstart).1
      rw [List.length_append, List.length_singleton] at hbound
      rw [h.started_eq] at hid
      omega
    rw [List.getElem?_append_left hlt] at hstart
    rw [hopens.endingOf_of_ne hid, List.append_nil]
    exact h.concluded id url' options' hstart

theorem holder_afterStart (h : Recorded policy events f notices)
    (hopens : f.Opens url options opened inFlight later) {key : String} (name : String)
    (id : Nat) : inFlight.lookup name = some id ↔
      IsLatest policy (events ++ [.start url options]) name id ∧
        id ∈ (f.afterStart key opened inFlight).openIds := by
  rw [hopens.lookup_iff h.distinct, isLatest_start_iff, mem_openIds_afterStart hopens,
    ← h.started_eq, h.policy_eq]
  split
  · constructor
    · rintro ⟨rfl, hsome⟩
      exact ⟨rfl, .inr ⟨rfl, hsome⟩⟩
    · rintro ⟨rfl, hin | hnew⟩
      · exact absurd hin h.started_not_mem_openIds
      · exact hnew
  · rw [h.holder]
    refine and_congr_right fun hlatest => ?_
    constructor
    · exact .inl
    · rintro (hin | ⟨rfl, -⟩)
      · exact hin
      · exact absurd hlatest.keyed (h.keyAt_started _)

/-- A call whose key a new one takes over is cancelled if its request is still running. -/
theorem verdict_cancelHolder (h : Recorded policy events f notices) {old : OpenCall}
    (hold : old ∈ f.calls) {key : String} (hkey : keyAt policy events old.id = some key) :
    (f.cancelHolder key old).verdict = some (old.verdict.getD .cancelled) := by
  cases hverdict : old.verdict with
  | some verdict => exact Fetcher.verdict_cancelHolder hverdict
  | none =>
    -- A running call has not been superseded, so it holds its key.
    have hfirst : ¬ Superseded policy events old.id :=
      fun hsuperseded => h.superseded old hold hsuperseded hverdict
    have hlatest := (isLatest_or_superseded hkey).resolve_right hfirst
    have hheld := (h.holder _ _).2 ⟨hlatest, List.mem_map_of_mem hold⟩
    exact Fetcher.verdict_cancelHolder_of_holder hheld hverdict

/-- The request of a superseded call has ended. -/
theorem superseded_afterStart (h : Recorded policy events f notices) {old : OpenCall}
    (hold : old ∈ f.calls)
    (hsuperseded : Superseded policy (events ++ [.start url options]) old.id) :
    (f.cancelHolder (policy.keyOf url options) old).verdict ≠ none := by
  rcases superseded_start_iff.1 hsuperseded with hbefore | hkey
  · obtain ⟨verdict, hverdict⟩ := Option.ne_none_iff_exists'.1 (h.superseded old hold hbefore)
    rw [Fetcher.verdict_cancelHolder hverdict]
    exact Option.some_ne_none _
  · rw [h.verdict_cancelHolder hold hkey]
    exact Option.some_ne_none _

/-- A call that is cancelled by now is superseded by the new one, or had been before. -/
theorem cancelled_afterStart (h : Recorded policy events f notices) {old : OpenCall}
    (hold : old ∈ f.calls)
    (hcancelled : (f.cancelHolder (policy.keyOf url options) old).verdict = some .cancelled) :
    Superseded policy (events ++ [.start url options]) old.id := by
  rw [superseded_start_iff]
  unfold Fetcher.cancelHolder at hcancelled
  split at hcancelled
  · rename_i hheld
    exact .inr ((h.holder _ _).1 hheld).1.keyed
  · exact .inl (h.cancelled old hold hcancelled)

/-- Starting a call keeps the record. -/
theorem start (h : Recorded policy events f notices)
    (hopens : f.Opens url options opened inFlight later) :
    Recorded policy (events ++ [.start url options])
      (f.afterStart (policy.keyOf url options) opened inFlight) (notices ++ later) where
  policy_eq := h.policy_eq
  started_eq := by
    rw [starts_snoc_start, List.length_append, ← h.started_eq]
    rfl
  nodup := h.nodup_afterStart hopens
  origin := by
    intro call hcall
    rcases Fetcher.mem_calls_afterStart.1 hcall with ⟨old, hold, rfl⟩ | hnew
    · exact ((h.origin old hold).kept (f.keeps_cancelHolder _)).append _
    · have hstarted := hopens.startedBy hnew h.started_eq
      rw [h.policy_eq] at hstarted
      exact hstarted
  open_iff := h.open_iff_afterStart hopens
  unstarted := by
    intro id hid
    have hid : f.started + 1 ≤ id := hid
    rw [endingOf_append, h.unstarted id (by omega), hopens.endingOf_of_ne (by omega)]
    rfl
  concluded := h.concluded_afterStart hopens
  distinct := hopens.distinct h.distinct
  holder := h.holder_afterStart hopens
  superseded := by
    intro call hcall hsuperseded
    rcases Fetcher.mem_calls_afterStart.1 hcall with ⟨old, hold, rfl⟩ | hnew
    · rw [(f.keeps_cancelHolder _).id] at hsuperseded
      exact h.superseded_afterStart hold hsuperseded
    · rw [(hopens.eq_of_mem hnew).1] at hsuperseded
      rcases superseded_start_iff.1 hsuperseded with ⟨key, -, hkey, -⟩ | hkey
      · exact absurd hkey (h.keyAt_started _)
      · exact absurd hkey (h.keyAt_started _)
  cancelled := by
    intro call hcall hcancelled
    rcases Fetcher.mem_calls_afterStart.1 hcall with ⟨old, hold, rfl⟩ | hnew
    · rw [(f.keeps_cancelHolder _).id]
      exact h.cancelled_afterStart hold hcancelled
    · rw [(hopens.eq_of_mem hnew).2] at hcancelled
      cases hcancelled

end Start

/-! ## Events and runs -/

/-- One event keeps the record. -/
theorem step (h : Recorded policy events f notices) (event : FetchEvent) :
    Recorded policy (events ++ [event]) (f.step event).1 (notices ++ (f.step event).2) := by
  have hcase := f.step_cases event
  generalize f.step event = next at hcase
  cases hcase with
  | start hopens =>
    rw [h.policy_eq]
    exact h.start hopens
  | change hevent hkeeps hanswers =>
    rw [List.append_nil]
    exact h.answers hevent hkeeps hanswers
  | @close call verdict hcall hready =>
    have hending := f.concluded_conclusion call verdict
    rw [h.policy_eq] at hending
    exact h.close rfl hcall hending

/-- Any further events keep the record. -/
theorem run (h : Recorded policy events f notices) (later : List FetchEvent) :
    Recorded policy (events ++ later) (f.run later).1 (notices ++ (f.run later).2) := by
  induction later generalizing events f notices with
  | nil => simpa [Fetcher.run] using h
  | cons event rest ih =>
    have hnext := ih (h.step event)
    rw [List.append_assoc, List.append_assoc] at hnext
    exact hnext

/-- The end of a call is recorded exactly when the call has returned. -/
theorem endingOf_eq_nil_iff (h : Recorded policy events f notices) (id : Nat) :
    endingOf id notices = [] ↔ returnsOf id notices = [] := by
  constructor
  · intro hnil
    rw [← returnsOf_endingOf, hnil]
    rfl
  · intro hnil
    by_cases hstarted : id < (starts events).length
    · rcases h.concluded id _ _ (List.getElem?_eq_getElem hstarted) with hnone | hending
      · exact hnone
      · obtain ⟨outcome, hreturned, -⟩ := hending.told
        rw [hnil] at hreturned
        cases hreturned
    · exact h.unstarted id (by rw [h.started_eq]; omega)

/-- A call that has started is open until it returns. -/
theorem mem_openIds_iff (h : Recorded policy events f notices) (id : Nat) :
    id ∈ f.openIds ↔ id < (starts events).length ∧ returnsOf id notices = [] := by
  rw [h.open_iff, h.endingOf_eq_nil_iff, h.started_eq]

end Recorded

/-- Every run from a new fetcher is recorded. -/
theorem recorded_run (policy : FetchPolicy) (headers : List (String × String))
    (events : List FetchEvent) :
    Recorded policy events ((Fetcher.ofPolicy policy headers).run events).1
      ((Fetcher.ofPolicy policy headers).run events).2 :=
  (Recorded.initial policy headers).run events

end ViewSchema
