import ViewSchema.Proofs.Fetch.Ending
import ViewSchema.Proofs.Fetch.Verdict

/-!
# Superseding a call

A call whose key another call takes over is aborted, unless its request has come to an end
before: the first end counts, even while the call still waits for its least time to pass.  From
the takeover on the outcome of the call is fixed, whatever happens later.

Main results:

- Theorem `Recorded.endingOf_superseded`: a superseded call returns as its verdict says.
- Theorem `aborted_iff_unanswered`: exactly the superseded calls without an answer are aborted.
-/

namespace ViewSchema

open FetchHistory

namespace Recorded

variable {policy : FetchPolicy} {events : List FetchEvent} {f : Fetcher}
  {notices : List FetchNotice}

/-- After another call has taken over its key, a call is to return as its verdict says; without
one it is cancelled. -/
theorem owes_start (h : Recorded policy events f notices) {call : OpenCall}
    (hcall : call ∈ f.calls) {url : String} {options : FetchOptions}
    (hkey : call.key = policy.keyOf url options) :
    (f.step (.start url options)).1.Owes call.id
      (f.conclusion call (call.verdict.getD .cancelled)) := by
  obtain ⟨opened, inFlight, later, -, hstart⟩ := f.start_spec url options
  have hkeeps := f.keeps_cancelHolder (policy.keyOf url options)
  have hkeyed := h.keyAt_eq hcall
  rw [hkey] at hkeyed
  rw [Fetcher.step, hstart, h.policy_eq]
  refine ⟨_, Fetcher.mem_calls_afterStart.2 (.inl ⟨call, hcall, rfl⟩), hkeeps.id call, _,
    h.verdict_cancelHolder hcall hkeyed, ?_⟩
  exact Fetcher.conclusion_congr rfl (hkeeps.id call) (hkeeps.url call) (hkeeps.options call) _

/-- A call whose key another call takes over returns as its verdict said at that moment,
whatever happens in between. -/
theorem endingOf_superseded (h : Recorded policy events f notices) {call : OpenCall}
    (hcall : call ∈ f.calls) {url : String} {options : FetchOptions}
    (hkey : call.key = policy.keyOf url options) (later : List FetchEvent) :
    endingOf call.id (notices ++ (f.run
        (.start url options :: (later ++ [.rest call.id, .resume call.id]))).2) =
      f.conclusion call (call.verdict.getD .cancelled) := by
  have howes := h.owes_start hcall hkey
  have hstarted := h.step (.start url options)
  have hlast := hstarted.run later
  have hnone := hstarted.endingOf_of_owes howes
  have hrun : notices ++ (f.run
      (.start url options :: (later ++ [.rest call.id, .resume call.id]))).2 =
      (notices ++ (f.step (.start url options)).2) ++
        (((f.step (.start url options)).1.run later).2 ++
          (((f.step (.start url options)).1.run later).1.run
            [.rest call.id, .resume call.id]).2) := by
    rw [Fetcher.run_cons, Fetcher.run_append, List.append_assoc]
  rw [hrun, endingOf_append, hnone, List.nil_append, endingOf_append]
  rcases hstarted.run_of_owes howes later with ⟨hstill, hquiet⟩ | hreturned
  · rw [hquiet, hlast.run_rest_resume_of_owes hstill, List.nil_append]
  · have hended : endingOf call.id (notices ++ (f.step (.start url options)).2 ++
        ((f.step (.start url options)).1.run later).2) ≠ [] := by
      rw [endingOf_append, hreturned]
      exact List.append_ne_nil_of_right_ne_nil _ howes.ne_nil
    rw [hreturned, hlast.endingOf_run_of_ended hended, List.append_nil]

end Recorded

/-- A cancelled call is aborted, and nobody is told. -/
theorem Fetcher.notices_of_cancelled (f : Fetcher) (call : OpenCall) :
    returnsOf call.id (f.conclusion call .cancelled) = [.aborted] ∧
      failuresOf call.id (f.conclusion call .cancelled) = [] := by
  simp [conclusion, returnsOf, failuresOf]

/-- An answered call is not aborted. -/
theorem Fetcher.returnsOf_of_answered (f : Fetcher) (call : OpenCall)
    (result : Except FetchError Response) :
    ∃ outcome, returnsOf call.id (f.conclusion call (.answered result)) = [outcome] ∧
      outcome ≠ .aborted := by
  have hending := f.concluded_conclusion call (.answered result)
  rw [← hending.endingOf_eq] at hending
  obtain ⟨outcome, hreturned, -⟩ := hending.told
  refine ⟨outcome, hreturned, ?_⟩
  rintro rfl
  have hmem := mem_returnsOf.1 (hreturned ▸ List.mem_singleton.2 rfl)
  cases (cancelled_of_aborted_mem_conclusion hmem).1

/-- When a call starts while an earlier one with its key has not returned, the earlier one is
aborted and nobody is told about it, provided that its request had not come to an end by then. If
it had, even if only the least time holds the call back, the earlier call returns the answer. Both
hold whatever happens later, once the least time has passed and the call is resumed. -/
theorem aborted_iff_unanswered (policy : FetchPolicy) (headers : List (String × String))
    (before later : List FetchEvent) (url : String) (options : FetchOptions) {id : Nat}
    (hkey : keyAt policy before id = some (policy.keyOf url options))
    (hopen : returnsOf id ((Fetcher.ofPolicy policy headers).run before).2 = []) :
    let run := (Fetcher.ofPolicy policy headers).run
      (before ++ .start url options :: (later ++ [.rest id, .resume id]))
    (¬ Answered policy before id →
      returnsOf id run.2 = [.aborted] ∧ failuresOf id run.2 = []) ∧
    (Answered policy before id → ∃ outcome, returnsOf id run.2 = [outcome] ∧
      outcome ≠ .aborted) := by
  intro run
  have h := recorded_run policy headers before
  obtain ⟨call, hcall, rfl⟩ := List.mem_map.1
    ((h.mem_openIds_iff id).2 ⟨lt_of_keyAt hkey, hopen⟩)
  have hkeyed : call.key = policy.keyOf url options :=
    Option.some.inj ((h.keyAt_eq hcall).symm.trans hkey)
  have hending := h.endingOf_superseded hcall hkeyed later
  have hrun : run.2 = _ := congrArg Prod.snd (Fetcher.run_append _ before _)
  dsimp only at hrun
  rw [← hrun] at hending
  rw [← Recorded.answered_iff policy headers before call hcall, ← returnsOf_endingOf,
    ← failuresOf_endingOf, hending]
  cases hverdict : call.verdict with
  | none => exact ⟨fun _ => Fetcher.notices_of_cancelled _ call, by simp⟩
  | some verdict =>
    cases verdict with
    | cancelled => exact ⟨fun _ => Fetcher.notices_of_cancelled _ call, by simp⟩
    | answered result =>
      exact ⟨fun hnone => absurd ⟨result, rfl⟩ hnone,
        fun _ => Fetcher.returnsOf_of_answered _ call result⟩

/-- A policy under which every call takes a while. -/
def patientPolicy : FetchPolicy :=
  { FetchPolicy.standard with
    base := (baseUrl "https://api.test/v1").toOption, minLatency := 300, listens := true }

/-- The answer to the first search, which is a failure. -/
def firstAnswer : FetchEvent := .answer 0 (.ok ⟨500, [], "\"first\""⟩)

/-- An answer that comes after the second search started does not help the first one. -/
theorem aborted_iff_unanswered_search :
    let run := (Fetcher.ofPolicy patientPolicy []).run
      ([.start "search" .standard] ++ .start "search" .standard ::
        ([firstAnswer] ++ [.rest 0, .resume 0]))
    keyAt patientPolicy [.start "search" .standard] 0 = some "GET search" ∧
      returnsOf 0 run.2 = [.aborted] ∧ failuresOf 0 run.2 = [] := by
  intro run
  have hkey : keyAt patientPolicy [.start "search" .standard] 0 =
      some (patientPolicy.keyOf "search" .standard) := rfl
  have hrunning : ¬ Answered patientPolicy [.start "search" .standard] 0 := by
    rintro ⟨before, event, after, heq, hstarted, -, -⟩
    cases before with
    | nil => exact absurd hstarted (by decide)
    | cons first rest => cases rest <;> cases heq
  obtain ⟨haborted, -⟩ := aborted_iff_unanswered patientPolicy [] [.start "search" .standard]
    [firstAnswer] "search" .standard hkey rfl
  exact ⟨by decide +kernel, haborted hrunning⟩

/-- An answer that came before the second search started and waits for the least time is
returned, although the call is in flight and holds its key when it is superseded. -/
theorem exists_superseded_not_aborted :
    ¬ ∀ (policy : FetchPolicy) (headers : List (String × String)) (before later : List FetchEvent)
      (url : String) (options : FetchOptions) (id : Nat),
      keyAt policy before id = some (policy.keyOf url options) →
      returnsOf id ((Fetcher.ofPolicy policy headers).run before).2 = [] →
      ((Fetcher.ofPolicy policy headers).run before).1.inFlight.lookup
        (policy.keyOf url options) = some id →
      ∀ outcome ∈ returnsOf id ((Fetcher.ofPolicy policy headers).run
        (before ++ .start url options :: later)).2, outcome = .aborted := by
  intro hclaim
  have hheld : ((Fetcher.ofPolicy patientPolicy []).run
      [.start "search" .standard, firstAnswer]).1.inFlight.lookup
        (patientPolicy.keyOf "search" .standard) = some 0 := by
    decide +kernel
  have haborted := hclaim patientPolicy [] [.start "search" .standard, firstAnswer]
    [.rest 0, .resume 0] "search" .standard 0 rfl rfl hheld
    (.failed ((FetchError.status 500 (.string "first")).toJson "search"))
    (List.mem_singleton.2 rfl)
  cases haborted

end ViewSchema
