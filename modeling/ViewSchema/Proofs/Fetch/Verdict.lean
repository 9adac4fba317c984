import ViewSchema.Proofs.Fetch.Record

/-!
# Answers in time

The first end of a request counts.  Whether the request of an open call was answered, or ran
into its limit, before another call took over its key can be read off the events, and the
verdict of the call says exactly this.

Main results:

- Theorem `FetchHistory.answered_snoc_iff`: what one more event says about an answer.
- Theorem `Recorded.answered_iff`: the verdict of an open call says whether its request was
  answered in time.
-/

namespace ViewSchema

open FetchHistory

namespace FetchHistory

variable {policy : FetchPolicy} {events : List FetchEvent} {event : FetchEvent} {id : Nat}

/-! ## Answers in the events -/

/-- Whether an event brings the request of a call to an end: an answer, or the end of the limit
if the call has one. -/
def EndsRequest (policy : FetchPolicy) (events : List FetchEvent) (id : Nat) :
    FetchEvent → Prop
  | .answer other _ => other = id
  | .expire other => other = id ∧ ∃ url options, (starts events)[id]? = some (url, options) ∧
      (policy.before url options).timeout.getD policy.timeout ≠ 0
  | _ => False

/-- The request of a call came to an end before another call took over its key. -/
def Answered (policy : FetchPolicy) (events : List FetchEvent) (id : Nat) : Prop :=
  ∃ before event after, events = before ++ event :: after ∧ id < (starts before).length ∧
    ¬ Superseded policy before id ∧ EndsRequest policy before id event

/-- One more event may be the answer. -/
theorem answered_snoc_iff :
    Answered policy (events ++ [event]) id ↔ Answered policy events id ∨
      id < (starts events).length ∧ ¬ Superseded policy events id ∧
        EndsRequest policy events id event := by
  constructor
  · rintro ⟨before, answer, after, heq, hstarted, hfirst, hends⟩
    rcases List.eq_nil_or_concat after with hnil | ⟨init, last, hsnoc⟩
    · subst hnil
      obtain ⟨rfl, hevent⟩ := List.append_inj' heq rfl
      cases hevent
      exact .inr ⟨hstarted, hfirst, hends⟩
    · subst hsnoc
      rw [List.concat_eq_append, ← List.cons_append, ← List.append_assoc] at heq
      obtain ⟨rfl, -⟩ := List.append_inj' heq rfl
      exact .inl ⟨before, answer, init, rfl, hstarted, hfirst, hends⟩
  · rintro (⟨before, answer, after, rfl, hstarted, hfirst, hends⟩ | ⟨hstarted, hfirst, hends⟩)
    · exact ⟨before, answer, after ++ [event], by simp, hstarted, hfirst, hends⟩
    · exact ⟨events, event, [], rfl, hstarted, hfirst, hends⟩

/-- Only a call that has started can have been answered. -/
theorem Answered.lt (h : Answered policy events id) : id < (starts events).length := by
  obtain ⟨before, event, after, rfl, hstarted, -, -⟩ := h
  rw [starts_append, List.length_append]
  omega

end FetchHistory

namespace Recorded

variable {policy : FetchPolicy} {events : List FetchEvent} {event : FetchEvent} {f : Fetcher}
  {notices : List FetchNotice}

/-- The verdict of an open call says whether its request was answered in time. -/
def VerdictsMatch (policy : FetchPolicy) (events : List FetchEvent) (f : Fetcher) : Prop :=
  ∀ call ∈ f.calls,
    (∃ result, call.verdict = some (.answered result)) ↔ Answered policy events call.id

/-- Changing open calls keeps verdicts right if exactly the answered ones get an answer. -/
theorem verdictsMatch_mapCalls (h : Recorded policy events f notices)
    (hmatch : VerdictsMatch policy events f) {change : OpenCall → OpenCall}
    (hkeeps : OpenCall.Keeps change)
    (hchange : ∀ call ∈ f.calls,
      (EndsRequest policy events call.id event ∧
        ∃ result, (change call).verdict = call.verdict.or (some (.answered result))) ∨
      (¬ EndsRequest policy events call.id event ∧ (change call).verdict = call.verdict)) :
    VerdictsMatch policy (events ++ [event]) (f.mapCalls change) := by
  intro call' hcall'
  obtain ⟨call, hcall, rfl⟩ := List.mem_map.1 hcall'
  have hstarted : call.id < (starts events).length :=
    ((h.mem_openIds_iff _).1 (List.mem_map_of_mem hcall)).1
  rw [hkeeps.id, answered_snoc_iff, ← hmatch call hcall]
  rcases hchange call hcall with ⟨hends, result, hverdict⟩ | ⟨hends, hverdict⟩
  · rw [hverdict]
    cases hbefore : call.verdict with
    | none =>
      have hfirst : ¬ Superseded policy events call.id :=
        fun hsuperseded => h.superseded call hcall hsuperseded hbefore
      exact iff_of_true ⟨result, rfl⟩ (.inr ⟨hstarted, hfirst, hends⟩)
    | some verdict =>
      rw [Option.some_or]
      refine ⟨.inl, ?_⟩
      rintro (hanswered | ⟨-, hfirst, -⟩)
      · exact hanswered
      · cases verdict with
        | cancelled => exact absurd (h.cancelled call hcall hbefore) hfirst
        | answered found => exact ⟨found, rfl⟩
  · rw [hverdict]
    simp [hends]

/-- An event that ends no request and leaves or drops open calls keeps verdicts right. -/
theorem verdictsMatch_of_subset (hmatch : VerdictsMatch policy events f)
    (hends : ∀ id, ¬ EndsRequest policy events id event) {g : Fetcher}
    (hsubset : ∀ call ∈ g.calls, call ∈ f.calls) :
    VerdictsMatch policy (events ++ [event]) g := by
  intro call hcall
  rw [hmatch call (hsubset call hcall), answered_snoc_iff]
  simp [hends]

/-- A start answers no request. -/
theorem verdictsMatch_start (h : Recorded policy events f notices)
    (hmatch : VerdictsMatch policy events f) (url : String) (options : FetchOptions) :
    VerdictsMatch policy (events ++ [.start url options]) (f.start url options).1 := by
  obtain ⟨opened, inFlight, later, hopens, hstart⟩ := f.start_spec url options
  have hsame : ∀ id, Answered policy (events ++ [.start url options]) id ↔
      Answered policy events id := by
    intro id
    rw [answered_snoc_iff]
    simp [EndsRequest]
  intro call hcall
  rw [hstart] at hcall
  rw [hsame]
  rcases Fetcher.mem_calls_afterStart.1 hcall with ⟨old, hold, rfl⟩ | hnew
  · rw [(f.keeps_cancelHolder _).id, ← hmatch old hold]
    unfold Fetcher.cancelHolder OpenCall.settle
    split
    · cases old.verdict <;> simp
    · rfl
  · obtain ⟨hid, hrunning⟩ := hopens.eq_of_mem hnew
    rw [hrunning, hid]
    constructor
    · rintro ⟨result, hresult⟩
      cases hresult
    · intro hanswered
      have hlt := hanswered.lt
      rw [← h.started_eq] at hlt
      exact absurd hlt (Nat.lt_irrefl _)

/-- The end of a limit ends the request of a call that has one. -/
theorem expired_cases (h : Recorded policy events f notices) {call : OpenCall}
    (hcall : call ∈ f.calls) {id : Nat} (hid : call.id = id) :
    (EndsRequest policy events call.id (.expire id) ∧
      ∃ result, call.expired.verdict = call.verdict.or (some (.answered result))) ∨
    (¬ EndsRequest policy events call.id (.expire id) ∧ call.expired.verdict = call.verdict) := by
  obtain ⟨url, options, hstart, -, hoptions, -, htimeout⟩ := h.origin call hcall
  rw [hoptions] at htimeout
  unfold OpenCall.expired
  by_cases hnone : call.timeout = 0
  · rw [if_pos hnone]
    refine .inr ⟨?_, rfl⟩
    rintro ⟨-, url', options', hstart', hlimit⟩
    rw [hstart, Option.some.injEq, Prod.mk.injEq] at hstart'
    obtain ⟨rfl, rfl⟩ := hstart'
    exact hlimit (htimeout ▸ hnone)
  · rw [if_neg hnone]
    exact .inl ⟨⟨hid.symm, url, options, hstart, htimeout ▸ hnone⟩, _, rfl⟩

/-- One event keeps verdicts right. -/
theorem verdictsMatch_step (h : Recorded policy events f notices)
    (hmatch : VerdictsMatch policy events f) (event : FetchEvent) :
    VerdictsMatch policy (events ++ [event]) (f.step event).1 := by
  cases event with
  | start url options => exact h.verdictsMatch_start hmatch url options
  | answer id result =>
    refine h.verdictsMatch_mapCalls hmatch ((OpenCall.keeps_settle _).at id) ?_
    intro call hcall
    by_cases hid : call.id = id
    · exact .inl ⟨hid.symm, result, by simp [hid, OpenCall.settle]⟩
    · exact .inr ⟨Ne.symm hid, by simp [hid]⟩
  | expire id =>
    refine h.verdictsMatch_mapCalls hmatch (OpenCall.keeps_expired.at id) ?_
    intro call hcall
    by_cases hid : call.id = id
    · rw [if_pos hid]
      exact h.expired_cases hcall hid
    · exact .inr ⟨fun hends => hid hends.1.symm, by rw [if_neg hid]⟩
  | rest id =>
    refine h.verdictsMatch_mapCalls hmatch (OpenCall.keeps_rested.at id) ?_
    intro call hcall
    refine .inr ⟨fun hends => hends, ?_⟩
    split <;> rfl
  | resume id =>
    have hends : ∀ other, ¬ EndsRequest policy events other (.resume id) := fun _ hends => hends
    refine verdictsMatch_of_subset hmatch hends ?_
    intro call hcall
    rw [Fetcher.step] at hcall
    rcases f.resume_spec id with hsame | ⟨closed, -, verdict, -, -, hclosed⟩
    · rw [hsame] at hcall
      exact hcall
    · rw [hclosed] at hcall
      exact (Fetcher.mem_calls_closeCall.1 hcall).1

/-- Any further events keep verdicts right. -/
theorem verdictsMatch_run (h : Recorded policy events f notices)
    (hmatch : VerdictsMatch policy events f) (later : List FetchEvent) :
    VerdictsMatch policy (events ++ later) (f.run later).1 := by
  induction later generalizing events f notices with
  | nil => simpa [Fetcher.run] using hmatch
  | cons event rest ih =>
    have hnext := ih (h.step event) (h.verdictsMatch_step hmatch event)
    rw [List.append_assoc] at hnext
    exact hnext

/-- In every run, the verdict of an open call says whether its request was answered before
another call took over its key. -/
theorem answered_iff (policy : FetchPolicy) (headers : List (String × String))
    (events : List FetchEvent) :
    VerdictsMatch policy events ((Fetcher.ofPolicy policy headers).run events).1 :=
  (Recorded.initial policy headers).verdictsMatch_run (fun _ hcall => nomatch hcall) events

end Recorded

end ViewSchema
