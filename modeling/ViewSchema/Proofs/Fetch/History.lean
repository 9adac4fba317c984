import ViewSchema.Fetch.Fetcher

/-!
# What the events and notices of a fetcher say

A run of a fetcher is given by its events and yields notices.  Which calls have started, with
which keys, and which call is the latest of its key can be read off the events alone; how a
call has ended can be read off the notices alone.  Statements about the state of a fetcher are
made in these terms.

Main results:

- Theorems `isLatest_start_iff` and `superseded_start_iff`: what one more call changes.
- Theorem `Fetcher.concluded_conclusion`: what a call returns with is a conclusion, which tells
  the listener of the call about a failure and nobody about anything else.
- Theorem `Fetcher.run_append`: a run over two stretches of events.
-/

namespace ViewSchema

/-! ## Calls in the events -/

/-- The call that an event starts. -/
def FetchEvent.start? : FetchEvent → Option (String × FetchOptions)
  | .start url options => some (url, options)
  | _ => none

/-- The key of a call: the method of its adapted options and its address. -/
def FetchPolicy.keyOf (policy : FetchPolicy) (url : String) (options : FetchOptions) : String :=
  (policy.before url options).verb ++ " " ++ url

namespace FetchHistory

variable {policy : FetchPolicy} {events : List FetchEvent} {event : FetchEvent} {id other : Nat}
  {key : String} {url : String} {options : FetchOptions}

/-- The calls that were started, by number. -/
def starts (events : List FetchEvent) : List (String × FetchOptions) :=
  events.filterMap FetchEvent.start?

/-- The key of the call with a number, once it has started. -/
def keyAt (policy : FetchPolicy) (events : List FetchEvent) (id : Nat) : Option String :=
  (starts events)[id]?.map fun call => policy.keyOf call.1 call.2

/-- A call is the one that started last among those with its key. -/
structure IsLatest (policy : FetchPolicy) (events : List FetchEvent) (key : String)
    (id : Nat) : Prop where
  keyed : keyAt policy events id = some key
  last : ∀ later, id < later → keyAt policy events later ≠ some key

/-- A call with the same key started after a call. -/
def Superseded (policy : FetchPolicy) (events : List FetchEvent) (id : Nat) : Prop :=
  ∃ key later, keyAt policy events id = some key ∧ id < later ∧
    keyAt policy events later = some key

theorem starts_append (events later : List FetchEvent) :
    starts (events ++ later) = starts events ++ starts later := List.filterMap_append

/-- An event that starts no call leaves the started ones as they are. -/
theorem starts_snoc_of_none (h : event.start? = none) :
    starts (events ++ [event]) = starts events := by
  rw [starts_append]
  simp [starts, h]

theorem starts_snoc_start :
    starts (events ++ [.start url options]) = starts events ++ [(url, options)] :=
  starts_append events _

/-- A call that has a key has started. -/
theorem lt_of_keyAt (h : keyAt policy events id = some key) : id < (starts events).length := by
  unfold keyAt at h
  obtain ⟨call, hcall, -⟩ := Option.map_eq_some_iff.1 h
  exact (List.getElem?_eq_some_iff.1 hcall).1

/-- The calls before a new one keep their keys, and the new one has its own. -/
theorem keyAt_snoc_start :
    keyAt policy (events ++ [.start url options]) id =
      if id = (starts events).length then some (policy.keyOf url options)
      else keyAt policy events id := by
  unfold keyAt
  rw [starts_snoc_start]
  split
  · rename_i heq
    simp [heq]
  · rename_i hne
    rcases Nat.lt_or_gt_of_ne hne with hlt | hgt
    · rw [List.getElem?_append_left hlt]
    · rw [List.getElem?_eq_none (by simp; omega), List.getElem?_eq_none (by omega)]

/-- Later events do not change the key of a call. -/
theorem keyAt_append (later : List FetchEvent) (h : keyAt policy events id = some key) :
    keyAt policy (events ++ later) id = some key := by
  have hlt := lt_of_keyAt h
  unfold keyAt at h ⊢
  rw [starts_append, List.getElem?_append_left hlt]
  exact h

theorem keyAt_snoc_of_none (h : event.start? = none) :
    keyAt policy (events ++ [event]) = keyAt policy events := by
  funext id
  unfold keyAt
  rw [starts_snoc_of_none h]

theorem isLatest_snoc_of_none_iff (h : event.start? = none) :
    IsLatest policy (events ++ [event]) key id ↔ IsLatest policy events key id := by
  have hkeys : keyAt policy (events ++ [event]) = keyAt policy events := keyAt_snoc_of_none h
  constructor
  · rintro ⟨hkeyed, hlast⟩
    rw [hkeys] at hkeyed hlast
    exact ⟨hkeyed, hlast⟩
  · rintro ⟨hkeyed, hlast⟩
    rw [← hkeys] at hkeyed hlast
    exact ⟨hkeyed, hlast⟩

theorem superseded_snoc_of_none_iff (h : event.start? = none) :
    Superseded policy (events ++ [event]) id ↔ Superseded policy events id := by
  unfold Superseded
  rw [keyAt_snoc_of_none h]

/-- A call is the latest of its key, or it is superseded. -/
theorem isLatest_or_superseded (h : keyAt policy events id = some key) :
    IsLatest policy events key id ∨ Superseded policy events id := by
  rcases Classical.em (∃ later, id < later ∧ keyAt policy events later = some key) with
    hlater | hnone
  · obtain ⟨later, hlt, hkey⟩ := hlater
    exact .inr ⟨key, later, h, hlt, hkey⟩
  · exact .inl ⟨h, fun later hlt hkey => hnone ⟨later, hlt, hkey⟩⟩

/-- A new call is the latest of its key; for other keys nothing changes. -/
theorem isLatest_start_iff {name : String} :
    IsLatest policy (events ++ [.start url options]) name id ↔
      if name = policy.keyOf url options then id = (starts events).length
      else IsLatest policy events name id := by
  constructor
  · rintro ⟨hkeyed, hlast⟩
    rw [keyAt_snoc_start] at hkeyed
    split
    · rename_i hname
      -- The new call would be a later one.
      by_cases hid : id = (starts events).length
      · exact hid
      · rw [if_neg hid] at hkeyed
        have hlater := hlast _ (lt_of_keyAt hkeyed)
        rw [keyAt_snoc_start, if_pos rfl, hname] at hlater
        exact absurd rfl hlater
    · rename_i hname
      by_cases hid : id = (starts events).length
      · rw [if_pos hid, Option.some.injEq] at hkeyed
        exact absurd hkeyed.symm hname
      · rw [if_neg hid] at hkeyed
        exact ⟨hkeyed, fun later hlt hkey => hlast later hlt (keyAt_append _ hkey)⟩
  · intro h
    split at h
    · rename_i hname
      subst hname h
      refine ⟨by rw [keyAt_snoc_start, if_pos rfl], ?_⟩
      intro later hlt hkey
      have hbound := lt_of_keyAt hkey
      rw [starts_snoc_start, List.length_append, List.length_singleton] at hbound
      omega
    · rename_i hname
      refine ⟨keyAt_append _ h.keyed, ?_⟩
      intro later hlt hkey
      rw [keyAt_snoc_start] at hkey
      split at hkey
      · exact hname (Option.some.inj hkey).symm
      · exact h.last later hlt hkey

/-- Once superseded, a call remains so. -/
theorem Superseded.append (h : Superseded policy events id) (later : List FetchEvent) :
    Superseded policy (events ++ later) id := by
  obtain ⟨key, next, hid, hlt, hnext⟩ := h
  exact ⟨key, next, keyAt_append later hid, hlt, keyAt_append later hnext⟩

/-- A new call supersedes the ones with its key. -/
theorem superseded_start_iff :
    Superseded policy (events ++ [.start url options]) id ↔
      Superseded policy events id ∨ keyAt policy events id = some (policy.keyOf url options) := by
  constructor
  · rintro ⟨key, later, hid, hlt, hlater⟩
    have hbound := lt_of_keyAt hlater
    rw [starts_snoc_start, List.length_append, List.length_singleton] at hbound
    rw [keyAt_snoc_start, if_neg (by omega)] at hid
    rw [keyAt_snoc_start] at hlater
    split at hlater
    · exact .inr (by rw [hid, ← hlater])
    · exact .inl ⟨key, later, hid, hlt, hlater⟩
  · rintro (h | hid)
    · exact h.append _
    · exact ⟨_, _, keyAt_append _ hid, lt_of_keyAt hid, by rw [keyAt_snoc_start, if_pos rfl]⟩

end FetchHistory

/-! ## Conclusions in the notices -/

/-- Whether a notice belongs to the end of a call. -/
def FetchNotice.ends (id : Nat) : FetchNotice → Bool
  | .sent _ _ => false
  | .failed other _ _ => other == id
  | .returned other _ => other == id

namespace FetchHistory

variable {id other : Nat} {notices : List FetchNotice}

/-- The notices that belong to the end of a call, in order. -/
def endingOf (id : Nat) (notices : List FetchNotice) : List FetchNotice :=
  notices.filter (FetchNotice.ends id)

/-- The outcomes with which a call has returned. -/
def returnsOf (id : Nat) (notices : List FetchNotice) : List FetchOutcome :=
  notices.filterMap fun
    | .returned other outcome => if other = id then some outcome else none
    | _ => none

/-- What listeners were told about a call, in order. -/
def failuresOf (id : Nat) (notices : List FetchNotice) : List (FailureListener × Json) :=
  notices.filterMap fun
    | .failed other listener value => if other = id then some (listener, value) else none
    | _ => none

/-- The outcomes of a call are among the notices of its end. -/
theorem returnsOf_endingOf (id : Nat) (notices : List FetchNotice) :
    returnsOf id (endingOf id notices) = returnsOf id notices := by
  unfold returnsOf endingOf
  rw [List.filterMap_filter]
  congr 1
  funext notice
  cases notice <;> simp [FetchNotice.ends]

/-- What listeners are told about a call is among the notices of its end. -/
theorem failuresOf_endingOf (id : Nat) (notices : List FetchNotice) :
    failuresOf id (endingOf id notices) = failuresOf id notices := by
  unfold failuresOf endingOf
  rw [List.filterMap_filter]
  congr 1
  funext notice
  cases notice <;> simp [FetchNotice.ends]

/-- The outcomes of a call are those it has returned with. -/
theorem mem_returnsOf {outcome : FetchOutcome} :
    outcome ∈ returnsOf id notices ↔ .returned id outcome ∈ notices := by
  unfold returnsOf
  rw [List.mem_filterMap]
  constructor
  · rintro ⟨notice, hmem, hsome⟩
    cases notice with
    | returned other found =>
      simp only [Option.ite_none_right_eq_some, Option.some.injEq] at hsome
      obtain ⟨rfl, rfl⟩ := hsome
      exact hmem
    | _ => cases hsome
  · intro hmem
    exact ⟨_, hmem, if_pos rfl⟩

theorem endingOf_append (id : Nat) (notices later : List FetchNotice) :
    endingOf id (notices ++ later) = endingOf id notices ++ endingOf id later :=
  List.filter_append notices later

end FetchHistory

/-- Who is told about the failure of a call: its own listener, else that of the fetcher. -/
def FetchPolicy.listener? (policy : FetchPolicy) (listens : Bool) : Option FailureListener :=
  if listens then some .call else if policy.listens then some .fetcher else none

/-- How a call with an address may end. A failure is told to the listener, if there is one, and
the call returns what the adaption of values makes of it. -/
inductive Concluded (policy : FetchPolicy) (id : Nat) (url : String) (listens : Bool) :
    List FetchNotice → Prop where
  | aborted : Concluded policy id url listens [.returned id .aborted]
  | ok (value : Json) : Concluded policy id url listens [.returned id (.ok value)]
  | failed (error : FetchError) :
    Concluded policy id url listens
      ((policy.listener? listens).toList.map (.failed id · (error.toJson url))
        ++ [.returned id (.failed (policy.after (error.toJson url)))])

/-- What listeners are told about a call with an outcome: about a failure once, with the value
before it is adapted, and about nothing else. -/
inductive Told (policy : FetchPolicy) (url : String) (listens : Bool) :
    FetchOutcome → List (FailureListener × Json) → Prop where
  | aborted : Told policy url listens .aborted []
  | ok (value : Json) : Told policy url listens (.ok value) []
  | failed (error : FetchError) :
    Told policy url listens (.failed (policy.after (error.toJson url)))
      ((policy.listener? listens).toList.map (·, error.toJson url))

namespace Fetcher

open FetchHistory

theorem failure_eq (f : Fetcher) (id : Nat) (url : String) (listens : Bool) (error : FetchError) :
    f.failure id url listens error =
      (f.policy.listener? listens).toList.map (.failed id · (error.toJson url))
        ++ [.returned id (.failed (f.policy.after (error.toJson url)))] := by
  unfold failure FetchPolicy.listener?
  dsimp only
  split
  · rfl
  · split <;> rfl

/-- A failure is a conclusion. -/
theorem concluded_failure (f : Fetcher) (id : Nat) (url : String) (listens : Bool)
    (error : FetchError) :
    Concluded f.policy id url listens (f.failure id url listens error) := by
  rw [failure_eq]
  exact .failed error

/-- What a call returns with is a conclusion. -/
theorem concluded_conclusion (f : Fetcher) (call : OpenCall) (verdict : Verdict) :
    Concluded f.policy call.id call.url call.options.listens (f.conclusion call verdict) := by
  unfold conclusion
  split
  · exact .aborted
  · exact concluded_failure f _ _ _ _
  · split
    · exact .ok _
    · exact concluded_failure f _ _ _ _

/-- A failed call is not aborted. -/
theorem aborted_not_mem_failure {f : Fetcher} {call id : Nat} {url : String} {listens : Bool}
    {error : FetchError} : .returned id .aborted ∉ f.failure call url listens error := by
  rw [failure_eq]
  intro hmem
  rcases List.mem_append.1 hmem with htold | hreturned
  · obtain ⟨listener, -, heq⟩ := List.mem_map.1 htold
    cases heq
  · simp at hreturned

/-- A call that concludes is aborted only if it was cancelled. -/
theorem cancelled_of_aborted_mem_conclusion {f : Fetcher} {call : OpenCall} {verdict : Verdict}
    {id : Nat}
    (h : .returned id .aborted ∈ f.conclusion call verdict) :
    verdict = .cancelled ∧ id = call.id := by
  cases verdict with
  | cancelled =>
    rw [conclusion, List.mem_singleton] at h
    cases h
    exact ⟨rfl, rfl⟩
  | answered result =>
    cases result with
    | error error => exact absurd h aborted_not_mem_failure
    | ok response =>
      rw [conclusion] at h
      split at h
      · simp at h
      · exact absurd h aborted_not_mem_failure

end Fetcher

namespace Concluded

open FetchHistory

variable {policy : FetchPolicy} {id other : Nat} {url : String} {listens : Bool}
  {notices : List FetchNotice}

/-- All notices of a conclusion belong to its call. -/
theorem endingOf_eq (h : Concluded policy id url listens notices) :
    endingOf id notices = notices := by
  rw [endingOf, List.filter_eq_self]
  intro notice hnotice
  cases h with
  | aborted => simp_all [FetchNotice.ends]
  | ok value => simp_all [FetchNotice.ends]
  | failed error =>
    rcases List.mem_append.1 hnotice with htold | hreturned
    · obtain ⟨listener, -, rfl⟩ := List.mem_map.1 htold
      exact beq_self_eq_true id
    · simp_all [FetchNotice.ends]

/-- No notice of a conclusion belongs to another call. -/
theorem endingOf_of_ne (h : Concluded policy id url listens notices) (hne : other ≠ id) :
    endingOf other notices = [] := by
  rw [endingOf, List.filter_eq_nil_iff]
  intro notice hnotice
  cases h with
  | aborted => simp_all [FetchNotice.ends, hne.symm]
  | ok value => simp_all [FetchNotice.ends, hne.symm]
  | failed error =>
    rcases List.mem_append.1 hnotice with htold | hreturned
    · obtain ⟨listener, -, rfl⟩ := List.mem_map.1 htold
      simp [FetchNotice.ends, hne.symm]
    · simp_all [FetchNotice.ends, hne.symm]

/-- A conclusion ends with the return of its call. -/
theorem exists_returned (h : Concluded policy id url listens notices) :
    ∃ outcome, .returned id outcome ∈ notices := by
  cases h with
  | aborted => exact ⟨.aborted, List.mem_singleton.2 rfl⟩
  | ok value => exact ⟨.ok value, List.mem_singleton.2 rfl⟩
  | failed error => exact ⟨_, List.mem_append.2 (.inr (List.mem_singleton.2 rfl))⟩

/-- A conclusion returns once, and listeners are told what its outcome calls for. -/
theorem told (h : Concluded policy id url listens (endingOf id notices)) :
    ∃ outcome, returnsOf id notices = [outcome] ∧
      Told policy url listens outcome (failuresOf id notices) := by
  rw [← returnsOf_endingOf, ← failuresOf_endingOf]
  generalize endingOf id notices = ending at h
  cases h with
  | aborted => exact ⟨.aborted, by simp [returnsOf], .aborted⟩
  | ok value => exact ⟨.ok value, by simp [returnsOf], .ok value⟩
  | failed error =>
    refine ⟨.failed (policy.after (error.toJson url)), ?_, ?_⟩
    · cases policy.listener? listens <;> simp [returnsOf]
    · have htold : Told policy url listens _ _ := .failed error
      cases hlistener : policy.listener? listens <;> rw [hlistener] at htold <;>
        simpa [failuresOf] using htold

theorem ne_nil (h : Concluded policy id url listens notices) : notices ≠ [] := by
  obtain ⟨outcome, hmem⟩ := h.exists_returned
  exact List.ne_nil_of_mem hmem

end Concluded

/-! ## Runs -/

namespace Fetcher

/-- A run goes on behind its first event. -/
theorem run_cons (f : Fetcher) (event : FetchEvent) (rest : List FetchEvent) :
    f.run (event :: rest) =
      (((f.step event).1.run rest).1, (f.step event).2 ++ ((f.step event).1.run rest).2) := rfl

/-- A run over two stretches of events. -/
theorem run_append (f : Fetcher) (events later : List FetchEvent) :
    f.run (events ++ later) =
      (((f.run events).1.run later).1, (f.run events).2 ++ ((f.run events).1.run later).2) := by
  induction events generalizing f with
  | nil => rfl
  | cons event rest ih =>
    simp only [List.cons_append, run, ih, List.append_assoc]

end Fetcher

end ViewSchema
