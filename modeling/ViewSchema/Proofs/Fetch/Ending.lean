import Mathlib.Data.List.Nodup
import ViewSchema.Proofs.Fetch.Record

/-!
# Calls whose end is fixed

Once the request of an open call has come to an end, the call is to return in one way.  It
returns in that way or stays open, whatever happens, and it returns once its least time has
passed and it is resumed.

Main results:

- Theorem `Recorded.endingOf_run_of_ended`: a call that has returned does not return again.
- Theorem `Recorded.run_of_owes`: a call that is to return in one way does so or stays open.
- Theorem `Recorded.run_rest_resume_of_owes`: it returns when nothing holds it back.
-/

namespace ViewSchema

open FetchHistory

/-- An open call is to return in a way that its verdict has fixed. -/
def Fetcher.Owes (f : Fetcher) (id : Nat) (ending : List FetchNotice) : Prop :=
  ∃ call ∈ f.calls, call.id = id ∧ ∃ verdict, call.verdict = some verdict ∧
    f.conclusion call verdict = ending

namespace Fetcher

variable {f g : Fetcher} {id : Nat} {ending : List FetchNotice}

/-- A conclusion depends only on what identifies a call. -/
theorem conclusion_congr {call call' : OpenCall} (hpolicy : g.policy = f.policy)
    (hid : call'.id = call.id) (hurl : call'.url = call.url)
    (hoptions : call'.options = call.options) (verdict : Verdict) :
    g.conclusion call' verdict = f.conclusion call verdict := by
  unfold conclusion failure
  rw [hid, hurl, hoptions, hpolicy]

/-- Changing open calls without touching verdicts keeps what is owed. -/
theorem Owes.changed (h : f.Owes id ending) {change : OpenCall → OpenCall}
    (hkeeps : OpenCall.Keeps change)
    (hverdict : ∀ call verdict, call.verdict = some verdict →
      (change call).verdict = some verdict)
    (hpolicy : g.policy = f.policy) (hcalls : ∀ call ∈ f.calls, change call ∈ g.calls) :
    g.Owes id ending := by
  obtain ⟨call, hcall, hid, verdict, hsome, hending⟩ := h
  refine ⟨change call, hcalls call hcall, (hkeeps.id call).trans hid, verdict,
    hverdict call verdict hsome, ?_⟩
  rw [conclusion_congr hpolicy (hkeeps.id call) (hkeeps.url call) (hkeeps.options call), hending]

theorem Owes.ne_nil (h : f.Owes id ending) : ending ≠ [] := by
  obtain ⟨call, -, -, verdict, -, rfl⟩ := h
  exact (f.concluded_conclusion call verdict).ne_nil

end Fetcher

namespace Recorded

variable {policy : FetchPolicy} {events : List FetchEvent} {f : Fetcher}
  {notices : List FetchNotice} {id : Nat} {ending : List FetchNotice}

/-- An open call is known by its number. -/
theorem eq_of_id_eq (h : Recorded policy events f notices) {call other : OpenCall}
    (hcall : call ∈ f.calls) (hother : other ∈ f.calls) (heq : call.id = other.id) :
    call = other :=
  List.inj_on_of_nodup_map h.nodup hcall hother heq

/-- A call that is to return has not done so. -/
theorem endingOf_of_owes (h : Recorded policy events f notices) (howes : f.Owes id ending) :
    endingOf id notices = [] := by
  obtain ⟨call, hcall, rfl, -⟩ := howes
  exact ((h.open_iff _).1 (List.mem_map_of_mem hcall)).2

/-- A call that has returned does not return again. -/
theorem endingOf_step_of_ended (h : Recorded policy events f notices)
    (hended : endingOf id notices ≠ []) (event : FetchEvent) :
    endingOf id (f.step event).2 = [] := by
  have hcase := f.step_cases event
  generalize f.step event = next at hcase
  cases hcase with
  | start hopens =>
    refine hopens.endingOf_of_ne ?_
    rintro rfl
    exact hended (h.unstarted _ (Nat.le_refl _))
  | change => rfl
  | @close call verdict hcall hready =>
    refine (f.concluded_conclusion call verdict).endingOf_of_ne ?_
    rintro rfl
    exact hended (h.open_of_mem hcall).2

theorem endingOf_run_of_ended (h : Recorded policy events f notices)
    (hended : endingOf id notices ≠ []) (later : List FetchEvent) :
    endingOf id (f.run later).2 = [] := by
  induction later generalizing events f notices with
  | nil => rfl
  | cons event rest ih =>
    have hnow := h.endingOf_step_of_ended hended event
    have hstill : endingOf id (notices ++ (f.step event).2) ≠ [] := by
      rw [endingOf_append, hnow, List.append_nil]
      exact hended
    rw [Fetcher.run_cons, endingOf_append, hnow, ih (h.step event) hstill]
    rfl

/-- With one event, a call returns in the way that is fixed, or it is still to do so. -/
theorem step_of_owes (h : Recorded policy events f notices) (howes : f.Owes id ending)
    (event : FetchEvent) :
    ((f.step event).1.Owes id ending ∧ endingOf id (f.step event).2 = []) ∨
      endingOf id (f.step event).2 = ending := by
  have hcase := f.step_cases event
  generalize f.step event = next at hcase
  cases hcase with
  | start hopens =>
    refine .inl ⟨?_, hopens.endingOf_of_ne ?_⟩
    · exact howes.changed (f.keeps_cancelHolder _) (fun _ _ => Fetcher.verdict_cancelHolder) rfl
        fun call hcall => Fetcher.mem_calls_afterStart.2 (.inl ⟨call, hcall, rfl⟩)
    · obtain ⟨call, hcall, rfl, -⟩ := howes
      intro heq
      exact h.started_not_mem_openIds (heq ▸ List.mem_map_of_mem hcall)
  | change hevent hkeeps hanswers =>
    exact .inl ⟨howes.changed hkeeps (fun _ _ => hanswers.verdict_eq) rfl
      fun call hcall => List.mem_map_of_mem hcall, rfl⟩
  | @close closed verdict hmem hready =>
    obtain ⟨call, hcall, rfl, owed, howed, rfl⟩ := howes
    have hending := f.concluded_conclusion closed verdict
    by_cases hid : call.id = closed.id
    · have heq := h.eq_of_id_eq hcall hmem hid
      subst heq
      have hverdict : some owed = some verdict :=
        howed.symm.trans (OpenCall.verdict_of_ready hready)
      cases hverdict
      exact .inr hending.endingOf_eq
    · refine .inl ⟨⟨call, Fetcher.mem_calls_closeCall.2 ⟨hcall, hid⟩, rfl, owed, howed, ?_⟩,
        hending.endingOf_of_ne hid⟩
      exact Fetcher.conclusion_congr rfl rfl rfl rfl owed

/-- In the rest of a run, a call returns in the way that is fixed, or it is still to do so. -/
theorem run_of_owes (h : Recorded policy events f notices) (howes : f.Owes id ending)
    (later : List FetchEvent) :
    ((f.run later).1.Owes id ending ∧ endingOf id (f.run later).2 = []) ∨
      endingOf id (f.run later).2 = ending := by
  induction later generalizing events f notices with
  | nil => exact .inl ⟨howes, rfl⟩
  | cons event rest ih =>
    rw [Fetcher.run_cons, endingOf_append]
    rcases h.step_of_owes howes event with ⟨hstill, hnone⟩ | hnow
    · rw [hnone, List.nil_append]
      exact ih (h.step event) hstill
    · have hended : endingOf id (notices ++ (f.step event).2) ≠ [] := by
        rw [endingOf_append, hnow]
        exact List.append_ne_nil_of_right_ne_nil _ howes.ne_nil
      rw [hnow, (h.step event).endingOf_run_of_ended hended, List.append_nil]
      exact .inr rfl

/-- An open call is found by its number. -/
theorem call?_eq_some (h : Recorded policy events f notices) {call : OpenCall}
    (hcall : call ∈ f.calls) : f.call? call.id = some call := by
  cases hfound : f.call? call.id with
  | none =>
    have hnone := List.find?_eq_none.1 hfound call hcall
    simp at hnone
  | some other =>
    have hid : other.id = call.id := by simpa using List.find?_some hfound
    rw [h.eq_of_id_eq (List.mem_of_find?_eq_some hfound) hcall hid]

/-- Once its least time has passed and it is resumed, a call returns in the way that is fixed. -/
theorem run_rest_resume_of_owes (h : Recorded policy events f notices)
    (howes : f.Owes id ending) : endingOf id (f.run [.rest id, .resume id]).2 = ending := by
  obtain ⟨call, hcall, rfl, verdict, hverdict, hending⟩ := howes
  have hrested : { call with rested := true } ∈ (f.step (.rest call.id)).1.calls :=
    List.mem_map.2 ⟨call, hcall, if_pos rfl⟩
  have hfound : (f.step (.rest call.id)).1.call? call.id = some { call with rested := true } :=
    (h.step (.rest call.id)).call?_eq_some hrested
  have hready : OpenCall.ready? { call with rested := true } = some verdict := hverdict
  have hresume : ((f.step (.rest call.id)).1.resume call.id).2 = ending := by
    rw [Fetcher.resume, hfound]
    dsimp only
    rw [hready]
    exact hending
  have hrun : (f.run [.rest call.id, .resume call.id]).2 =
      ((f.step (.rest call.id)).1.resume call.id).2 := by
    simp [Fetcher.run, Fetcher.step]
  rw [hrun, hresume, ← hending]
  exact (f.concluded_conclusion call verdict).endingOf_eq

end Recorded

end ViewSchema
