import ViewSchema.Proofs.Fetch.History
import ViewSchema.Proofs.Json.Fields

/-!
# What an event does to a fetcher

Every event changes open calls without touching what identifies them, or starts a call, or
closes one.  This module says what each of the three does to the calls and to the keys; no
invariant is needed for it.

Main results:

- Theorem `Fetcher.start_spec`: a start opens its call or fails.
- Theorem `Fetcher.Opens.lookup_iff`: the keys after a start.
- Theorem `Fetcher.step_cases`: every event does one of three things.
-/

namespace ViewSchema

open FetchHistory

/-! ## Changing calls -/

/-- A call is what its start made it. -/
def OpenCall.StartedBy (policy : FetchPolicy) (events : List FetchEvent) (call : OpenCall) :
    Prop :=
  ∃ url options, (starts events)[call.id]? = some (url, options) ∧ call.url = url ∧
    call.options = policy.before url options ∧ call.key = policy.keyOf url options ∧
      call.timeout = call.options.timeout.getD policy.timeout

/-- A change of calls that keeps what identifies them. -/
structure OpenCall.Keeps (change : OpenCall → OpenCall) : Prop where
  id : ∀ call, (change call).id = call.id
  key : ∀ call, (change call).key = call.key
  url : ∀ call, (change call).url = call.url
  options : ∀ call, (change call).options = call.options
  timeout : ∀ call, (change call).timeout = call.timeout

/-- A change of calls that ends requests only by an answer, and only those still running. -/
def OpenCall.Answers (change : OpenCall → OpenCall) : Prop :=
  ∀ call, (change call).verdict = call.verdict ∨
    call.verdict = none ∧ ∃ result, (change call).verdict = some (.answered result)

namespace OpenCall

variable {change : OpenCall → OpenCall}

/-- A change that keeps what identifies calls does so if it is made to one of them alone. -/
theorem Keeps.at (h : Keeps change) (id : Nat) :
    Keeps fun call => if call.id = id then change call else call := by
  constructor <;> intro call <;> split
  · exact h.id call
  · rfl
  · exact h.key call
  · rfl
  · exact h.url call
  · rfl
  · exact h.options call
  · rfl
  · exact h.timeout call
  · rfl

/-- A change that ends requests by an answer does so if it is made to one call alone. -/
theorem Answers.at (h : Answers change) (id : Nat) :
    Answers fun call => if call.id = id then change call else call := by
  intro call
  dsimp only
  split
  · exact h call
  · exact .inl rfl

/-- An end of its request keeps what identifies a call. -/
theorem keeps_settle (verdict : Verdict) : Keeps (·.settle verdict) where
  id _ := rfl
  key _ := rfl
  url _ := rfl
  options _ := rfl
  timeout _ := rfl

/-- An answer ends a request that still runs, and no other. -/
theorem answers_settle (result : Except FetchError Response) :
    Answers (·.settle (.answered result)) := by
  intro call
  cases hverdict : call.verdict with
  | none => exact .inr ⟨rfl, result, by simp [settle, hverdict]⟩
  | some verdict => exact .inl (by simp [settle, hverdict])

/-- The change that the end of a limit brings to a call. -/
def expired (call : OpenCall) : OpenCall :=
  if call.timeout = 0 then call else call.settle (.answered (.error (.timeout call.timeout)))

/-- The end of its limit keeps what identifies a call. -/
theorem keeps_expired : Keeps expired := by
  constructor <;> intro call <;> unfold expired <;> split <;> rfl

/-- The end of its limit counts as an answer. -/
theorem answers_expired : Answers expired := by
  intro call
  unfold expired
  split
  · exact .inl rfl
  · exact answers_settle _ call

/-- The end of its least time keeps what identifies a call. -/
theorem keeps_rested : Keeps ({ · with rested := true }) where
  id _ := rfl
  key _ := rfl
  url _ := rfl
  options _ := rfl
  timeout _ := rfl

/-- The end of its least time ends no request. -/
theorem answers_rested : Answers ({ · with rested := true }) := fun _ => .inl rfl

/-- No change at all keeps everything. -/
theorem keeps_self : Keeps fun call => call where
  id _ := rfl
  key _ := rfl
  url _ := rfl
  options _ := rfl
  timeout _ := rfl

/-- Answers leave a request that has ended as it is. -/
theorem Answers.verdict_eq (h : Answers change) {call : OpenCall} {verdict : Verdict}
    (hsome : call.verdict = some verdict) : (change call).verdict = some verdict := by
  rcases h call with hsame | ⟨hnone, -⟩
  · rw [hsame, hsome]
  · rw [hsome] at hnone
    cases hnone

/-- A call that is ready has its verdict. -/
theorem verdict_of_ready {call : OpenCall} {verdict : Verdict} (h : call.ready? = some verdict) :
    call.verdict = some verdict := by
  unfold ready? at h
  split at h
  · exact h
  · cases h

/-- A change that keeps what identifies a call keeps where it comes from. -/
theorem StartedBy.kept {policy : FetchPolicy} {events : List FetchEvent} {call : OpenCall}
    (h : call.StartedBy policy events) (hkeeps : Keeps change) :
    (change call).StartedBy policy events := by
  unfold StartedBy
  rw [hkeeps.id, hkeeps.url, hkeeps.options, hkeeps.key, hkeeps.timeout]
  exact h

/-- Later events do not change where a call comes from. -/
theorem StartedBy.append {policy : FetchPolicy} {events : List FetchEvent} {call : OpenCall}
    (h : call.StartedBy policy events) (later : List FetchEvent) :
    call.StartedBy policy (events ++ later) := by
  obtain ⟨url, options, hstart, hrest⟩ := h
  refine ⟨url, options, ?_, hrest⟩
  rw [starts_append, List.getElem?_append_left (List.getElem?_eq_some_iff.1 hstart).1]
  exact hstart

end OpenCall

/-! ## Closing a call -/

namespace Fetcher

variable {f : Fetcher}

/-- The numbers of the open calls. -/
def openIds (f : Fetcher) : List Nat := f.calls.map OpenCall.id

/-- Change all open calls. -/
def mapCalls (f : Fetcher) (change : OpenCall → OpenCall) : Fetcher :=
  { f with calls := f.calls.map change }

/-- Changing calls changes no numbers. -/
theorem openIds_mapCalls {change : OpenCall → OpenCall} (h : OpenCall.Keeps change)
    (f : Fetcher) : (f.mapCalls change).openIds = f.openIds := by
  simp [openIds, mapCalls, h.id]

/-- Close a call and give up its key. -/
def closeCall (f : Fetcher) (call : OpenCall) : Fetcher :=
  { f with calls := f.calls.filter (·.id != call.id) }.finish call.key call.id

/-- Closing a call takes it away, and no other. -/
theorem mem_calls_closeCall {call other : OpenCall} :
    other ∈ (f.closeCall call).calls ↔ other ∈ f.calls ∧ other.id ≠ call.id := by
  simp [closeCall, finish]

/-- Closing a call takes its number away, and no other. -/
theorem mem_openIds_closeCall {call : OpenCall} {id : Nat} :
    id ∈ (f.closeCall call).openIds ↔ id ∈ f.openIds ∧ id ≠ call.id := by
  constructor
  · intro hid
    obtain ⟨other, hother, rfl⟩ := List.mem_map.1 hid
    obtain ⟨hmem, hne⟩ := mem_calls_closeCall.1 hother
    exact ⟨List.mem_map_of_mem hmem, hne⟩
  · rintro ⟨hid, hne⟩
    obtain ⟨other, hother, rfl⟩ := List.mem_map.1 hid
    exact List.mem_map_of_mem (mem_calls_closeCall.2 ⟨hother, hne⟩)

/-- A call returns only when it is ready, and then it is closed. -/
theorem resume_spec (f : Fetcher) (id : Nat) :
    f.resume id = (f, []) ∨ ∃ call ∈ f.calls, ∃ verdict, call.id = id ∧
      call.ready? = some verdict ∧ f.resume id = (f.closeCall call, f.conclusion call verdict) := by
  unfold resume
  split
  · exact .inl rfl
  · rename_i call hfound
    split
    · exact .inl rfl
    · rename_i verdict hready
      have hid : call.id = id := by simpa using List.find?_some hfound
      subst hid
      exact .inr ⟨call, List.mem_of_find?_eq_some hfound, verdict, rfl, hready, rfl⟩

/-! ## Starting a call -/

/-- The change that a new call with a key brings to the others: the holder of the key is
cancelled. -/
def cancelHolder (f : Fetcher) (key : String) (call : OpenCall) : OpenCall :=
  if f.inFlight.lookup key = some call.id then call.settle .cancelled else call

/-- Cancelling the holder of a key is a change of all calls that spares the others. -/
theorem supersede_eq (f : Fetcher) (key : String) :
    f.supersede key = f.mapCalls (f.cancelHolder key) := by
  unfold supersede mapCalls cancelHolder
  cases h : f.inFlight.lookup key with
  | none => simp
  | some previous => simp [modifyCall, eq_comm]

/-- Registering a call cancels the holder of its key and takes the key over. -/
theorem register_eq (f : Fetcher) (key : String) :
    f.register key =
      { f with
        inFlight := Fields.set f.inFlight key f.started
        started := f.started + 1
        calls := f.calls.map (f.cancelHolder key) } := by
  unfold register
  rw [supersede_eq]
  rfl

/-- A cancelled call is the call that it was. -/
theorem keeps_cancelHolder (f : Fetcher) (key : String) :
    OpenCall.Keeps (f.cancelHolder key) := by
  constructor <;> intro call <;> unfold cancelHolder <;> split <;> rfl

/-- Cancelling a holder leaves a request that has ended as it is. -/
theorem verdict_cancelHolder {call : OpenCall} {key : String} {verdict : Verdict}
    (h : call.verdict = some verdict) : (f.cancelHolder key call).verdict = some verdict := by
  unfold cancelHolder
  split
  · rw [OpenCall.settle, h]
    rfl
  · exact h

/-- The running request of a holder is cancelled. -/
theorem verdict_cancelHolder_of_holder {call : OpenCall} {key : String}
    (hheld : f.inFlight.lookup key = some call.id) (hrunning : call.verdict = none) :
    (f.cancelHolder key call).verdict = some .cancelled := by
  rw [cancelHolder, if_pos hheld, OpenCall.settle, hrunning]
  rfl

/-- The state after a start: the call is open or has failed, and the keys are given. -/
def afterStart (f : Fetcher) (key : String) (opened : Option OpenCall)
    (inFlight : List (String × Nat)) : Fetcher :=
  { f with
    inFlight
    started := f.started + 1
    calls := f.calls.map (f.cancelHolder key) ++ opened.toList }

/-- What a start leaves behind: an open call that has sent its request and holds its key, or a
failure and a free key. -/
inductive Opens (f : Fetcher) (url : String) (options : FetchOptions) :
    Option OpenCall → List (String × Nat) → List FetchNotice → Prop where
  | opened {call : OpenCall} (request : Request) (hid : call.id = f.started)
      (hurl : call.url = url) (hoptions : call.options = f.policy.before url options)
      (hkey : call.key = f.policy.keyOf url options)
      (htimeout : call.timeout = call.options.timeout.getD f.policy.timeout)
      (hrunning : call.verdict = none) :
      Opens f url options (some call)
        (Fields.set f.inFlight (f.policy.keyOf url options) f.started) [.sent f.started request]
  | failed (error : FetchError) :
      Opens f url options none
        ((Fields.set f.inFlight (f.policy.keyOf url options) f.started).erase
          (f.policy.keyOf url options, f.started))
        (f.failure f.started url (f.policy.before url options).listens error)

/-- A start cancels the holder of its key, and opens a call or fails. -/
theorem start_spec (f : Fetcher) (url : String) (options : FetchOptions) :
    ∃ opened inFlight later, f.Opens url options opened inFlight later ∧
      f.start url options =
        (f.afterStart (f.policy.keyOf url options) opened inFlight, later) := by
  delta start
  cases hresolve : resolveUrl f.policy.base url (f.policy.before url options).query with
  | error error =>
    simp only [register_eq, hresolve]
    refine ⟨none, _, _, .failed error, ?_⟩
    rw [afterStart, Option.toList_none, List.append_nil]
    rfl
  | ok target =>
    simp only [register_eq, hresolve]
    exact ⟨_, _, _, .opened _ rfl rfl rfl rfl rfl rfl, rfl⟩

namespace Opens

variable {url : String} {options : FetchOptions} {opened : Option OpenCall}
  {inFlight : List (String × Nat)} {later : List FetchNotice}

/-- The key of a new call is its own while it is open; other keys keep their holders. -/
theorem lookup_iff (h : f.Opens url options opened inFlight later)
    (hdistinct : Fields.Distinct f.inFlight) (name : String) (id : Nat) :
    inFlight.lookup name = some id ↔
      if name = f.policy.keyOf url options then id = f.started ∧ opened.isSome
      else f.inFlight.lookup name = some id := by
  cases h with
  | opened =>
    rw [Fields.lookup_set]
    split
    · simp [eq_comm]
    · rfl
  | failed =>
    rw [Fields.lookup_erase_eq_some_iff (hdistinct.set _ _), Fields.lookup_set]
    split
    · rename_i hname
      subst hname
      simp +contextual [eq_comm]
    · rename_i hname
      simp [hname]

/-- After a start no key is held twice. -/
theorem distinct (h : f.Opens url options opened inFlight later)
    (hdistinct : Fields.Distinct f.inFlight) : Fields.Distinct inFlight := by
  cases h with
  | opened => exact hdistinct.set _ _
  | failed => exact (hdistinct.set _ _).erase _

/-- The new call has the next number and is running. -/
theorem eq_of_mem (h : f.Opens url options opened inFlight later) {call : OpenCall}
    (hcall : call ∈ opened.toList) : call.id = f.started ∧ call.verdict = none := by
  cases h with
  | opened request hid _ _ _ _ hrunning =>
    rw [Option.toList_some, List.mem_singleton] at hcall
    subst hcall
    exact ⟨hid, hrunning⟩
  | failed => simp at hcall

/-- The new call comes from its start. -/
theorem startedBy (h : f.Opens url options opened inFlight later) {call : OpenCall}
    (hcall : call ∈ opened.toList) {events : List FetchEvent}
    (hstarted : f.started = (starts events).length) :
    call.StartedBy f.policy (events ++ [.start url options]) := by
  cases h with
  | opened request hid hurl hoptions hkey htimeout _ =>
    rw [Option.toList_some, List.mem_singleton] at hcall
    subst hcall
    refine ⟨url, options, ?_, hurl, hoptions, hkey, htimeout⟩
    rw [hid, hstarted, starts_snoc_start, List.getElem?_concat_length]
  | failed => simp at hcall

/-- A start ends no other call. -/
theorem endingOf_of_ne (h : f.Opens url options opened inFlight later) {id : Nat}
    (hne : id ≠ f.started) : endingOf id later = [] := by
  cases h with
  | opened => rfl
  | failed error => exact (concluded_failure f f.started url _ error).endingOf_of_ne hne

/-- A start that does not open its call ends it. -/
theorem endingOf_started (h : f.Opens url options opened inFlight later) :
    (opened.isSome ∧ endingOf f.started later = []) ∨
      (opened.isSome = false ∧ Concluded f.policy f.started url
        (f.policy.before url options).listens (endingOf f.started later)) := by
  cases h with
  | opened => exact .inl ⟨rfl, rfl⟩
  | failed error =>
    have hending := concluded_failure f f.started url (f.policy.before url options).listens error
    exact .inr ⟨rfl, hending.endingOf_eq.symm ▸ hending⟩

end Opens

section AfterStart

variable {key : String} {opened : Option OpenCall} {inFlight : List (String × Nat)}

/-- After a start the open calls are the old ones, the holder of the key being cancelled, and the
new one if it is open. -/
theorem mem_calls_afterStart {call : OpenCall} :
    call ∈ (f.afterStart key opened inFlight).calls ↔
      (∃ old ∈ f.calls, f.cancelHolder key old = call) ∨ call ∈ opened.toList := by
  rw [afterStart, List.mem_append, List.mem_map]

/-- A call that starts has its number behind the others. -/
theorem openIds_afterStart :
    (f.afterStart key opened inFlight).openIds = f.openIds ++ opened.toList.map OpenCall.id := by
  have hmapped := openIds_mapCalls (f.keeps_cancelHolder key) f
  unfold openIds mapCalls at hmapped
  rw [openIds, afterStart, List.map_append, hmapped]
  rfl

end AfterStart

/-- What an event can do: start a call, change open calls, or close a call that is ready. -/
inductive StepCase (f : Fetcher) : FetchEvent → Fetcher × List FetchNotice → Prop where
  | start {url : String} {options : FetchOptions} {opened : Option OpenCall}
      {inFlight : List (String × Nat)} {later : List FetchNotice}
      (hopens : f.Opens url options opened inFlight later) :
      StepCase f (.start url options)
        (f.afterStart (f.policy.keyOf url options) opened inFlight, later)
  | change {event : FetchEvent} {change : OpenCall → OpenCall} (hevent : event.start? = none)
      (hkeeps : OpenCall.Keeps change) (hanswers : OpenCall.Answers change) :
      StepCase f event (f.mapCalls change, [])
  | close {call : OpenCall} {verdict : Verdict} (hcall : call ∈ f.calls)
      (hready : call.ready? = some verdict) :
      StepCase f (.resume call.id) (f.closeCall call, f.conclusion call verdict)

/-- Every event does one of three things. -/
theorem step_cases (f : Fetcher) (event : FetchEvent) : f.StepCase event (f.step event) := by
  cases event with
  | start url options =>
    obtain ⟨opened, inFlight, later, hopens, hstart⟩ := f.start_spec url options
    rw [step, hstart]
    exact .start hopens
  | answer id result =>
    exact .change rfl ((OpenCall.keeps_settle _).at id) ((OpenCall.answers_settle result).at id)
  | expire id => exact .change rfl (OpenCall.keeps_expired.at id) (OpenCall.answers_expired.at id)
  | rest id => exact .change rfl (OpenCall.keeps_rested.at id) (OpenCall.answers_rested.at id)
  | resume id =>
    rw [step]
    rcases f.resume_spec id with hsame | ⟨call, hcall, verdict, rfl, hready, hclosed⟩
    · rw [hsame]
      have hnothing : f.StepCase (.resume id) (f.mapCalls fun call => call, []) :=
        .change rfl OpenCall.keeps_self fun _ => .inl rfl
      simpa [mapCalls] using hnothing
    · rw [hclosed]
      exact .close hcall hready

end Fetcher

end ViewSchema
