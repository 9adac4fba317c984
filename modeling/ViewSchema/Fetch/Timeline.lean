import ViewSchema.Fetch.Fetcher

/-!
# Calls in time

Calls that start at planned times, against a transport that answers each request
after a delay. Time jumps from one timer to the next. What is due at the same
time happens in the order of the calls, and a call that was cancelled returns
after all of that.

Main definitions:

- `Timeline.of` plays planned calls and records every notice with its time.
-/

namespace ViewSchema

/-- What comes back for a request, and after how many milliseconds. -/
structure Reply where
  delay : Nat
  result : Except FetchError Response

/-- The reply to each request, given how many were sent before it. -/
def Transport : Type := Nat → Request → Reply

/-- A call and the time at which it starts. -/
structure PlannedCall where
  start : Nat
  url : String
  options : FetchOptions

/-- An event of a call that is due at a time. The place is that of the call among
the planned ones; a late event waits for all others of its time. -/
structure Timer where
  due : Nat
  late : Bool
  place : Nat
  event : FetchEvent

namespace Timer

/-- Whether a timer goes off before another one. -/
def before (a b : Timer) : Bool :=
  a.due < b.due ||
    a.due == b.due && (!a.late && b.late || a.late == b.late && a.place < b.place)

/-- How many timers come of one at most, and itself. -/
def weight (timer : Timer) : Nat :=
  match timer.event with
  | .start _ _ => 5
  | _ => 1

/-- Add a timer to those in order, behind the ones that are due with it. -/
def insert (timer : Timer) : List Timer → List Timer
  | [] => [timer]
  | first :: rest =>
    if timer.before first then timer :: first :: rest else first :: insert timer rest

/-- Add several timers. -/
def insertAll (timers queue : List Timer) : List Timer :=
  timers.foldl (fun queue timer => timer.insert queue) queue

/-- The weight of all timers of a list. -/
def total : List Timer → Nat
  | [] => 0
  | timer :: rest => timer.weight + total rest

@[simp] theorem total_nil : total [] = 0 := rfl

@[simp] theorem total_cons (timer : Timer) (rest : List Timer) :
    total (timer :: rest) = timer.weight + total rest := rfl

@[simp] theorem total_append (xs ys : List Timer) : total (xs ++ ys) = total xs + total ys := by
  induction xs with
  | nil => simp
  | cons timer rest ih => simp [ih, Nat.add_assoc]

/-- Inserting a timer adds its weight. -/
theorem total_insert (timer : Timer) (queue : List Timer) :
    total (timer.insert queue) = timer.weight + total queue := by
  induction queue with
  | nil => rfl
  | cons first rest ih =>
    simp only [insert]
    split
    · simp
    · simp only [total_cons, ih]
      omega

/-- Inserting timers adds their weights. -/
theorem total_insertAll (timers queue : List Timer) :
    total (insertAll timers queue) = total timers + total queue := by
  induction timers generalizing queue with
  | nil => simp [insertAll]
  | cons timer rest ih =>
    simp only [insertAll, List.foldl_cons, total_cons]
    have h := ih (timer.insert queue)
    simp only [insertAll] at h
    rw [h, total_insert]
    omega

end Timer

/-- A notice of a planned call, when it came, and how many calls were in flight
right then. -/
structure TimedNotice where
  time : Nat
  place : Nat
  inFlight : Nat
  notice : FetchNotice

structure Timeline where
  fetcher : Fetcher
  /-- The requests sent so far. -/
  sent : List Request
  /-- The places of the calls that have started, by number. -/
  places : List (Nat × Nat)
  notices : List TimedNotice

namespace Timeline

/-- One event of a call at a time. -/
def perform (line : Timeline) (time place : Nat) (event : FetchEvent) : Timeline :=
  let (fetcher, notices) := line.fetcher.step event
  { line with
    fetcher
    notices := line.notices ++ notices.map (⟨time, place, fetcher.inFlight.length, ·⟩) }

/-- The timers that a started call sets for an answer that is not there at once,
for its limit and for the time that it takes at least. -/
def timersOf (time place id timeout minLatency : Nat) (reply : Option Reply) : List Timer :=
  match reply with
  | none => []
  | some reply =>
    (if reply.delay = 0 then []
      else [⟨time + reply.delay, false, place, .answer id reply.result⟩])
    ++ (if timeout = 0 then [] else [⟨time + timeout, false, place, .expire id⟩])
    ++ (if minLatency = 0 then [] else [⟨time + minLatency, false, place, .rest id⟩])

/-- The timer for the return of a call that another one cancels. -/
def cancelTimer (line : Timeline) (time : Nat) (cancelled : Option Nat) : List Timer :=
  match cancelled with
  | none => []
  | some id => [⟨time, true, (line.places.lookup id).getD 0, .resume id⟩]

/-- Start a call. An answer without delay is there at once. -/
def start (line : Timeline) (transport : Transport) (time place : Nat) (url : String)
    (options : FetchOptions) : Timeline × List Timer :=
  let id := line.fetcher.started
  let adapted := line.fetcher.policy.before url options
  let timeout := line.fetcher.timeoutOf adapted
  let minLatency := line.fetcher.minLatencyOf adapted
  let cancelled := line.fetcher.inFlight.lookup (line.fetcher.keyOf url options)
  let late := line.cancelTimer time cancelled
  let (_, notices) := line.fetcher.step (.start url options)
  let requests := notices.filterMap fun
    | .sent _ request => some request
    | _ => none
  let reply := requests.head?.map (transport line.sent.length)
  let line := line.perform time place (.start url options)
  let line := { line with sent := line.sent ++ requests, places := line.places ++ [(id, place)] }
  let line := match reply with
    | some ⟨0, result⟩ => line.perform time place (.answer id result)
    | _ => line
  (line.perform time place (.resume id),
    late ++ timersOf time place id timeout minLatency reply)

/-- A timer goes off. The call returns if it can. -/
def fire (line : Timeline) (transport : Transport) (timer : Timer) : Timeline × List Timer :=
  match timer.event with
  | .start url options => line.start transport timer.due timer.place url options
  | .answer id _ | .expire id | .rest id =>
    ((line.perform timer.due timer.place timer.event).perform timer.due timer.place (.resume id),
      [])
  | .resume id => (line.perform timer.due timer.place (.resume id), [])

/-- A started call sets three timers at most. -/
theorem total_timersOf_le (time place id timeout minLatency : Nat) (reply : Option Reply) :
    Timer.total (timersOf time place id timeout minLatency reply) ≤ 3 := by
  unfold timersOf
  split
  · simp
  · simp only [Timer.total_append]
    split <;> split <;> split <;> simp [Timer.weight]

/-- A cancelled call sets one timer at most. -/
theorem total_cancelTimer_le (line : Timeline) (time : Nat) (cancelled : Option Nat) :
    Timer.total (line.cancelTimer time cancelled) ≤ 1 := by
  unfold cancelTimer
  split <;> simp [Timer.weight]

/-- The timers that come of one weigh less than it. -/
theorem total_fire_lt (line : Timeline) (transport : Transport) (timer : Timer) :
    Timer.total (line.fire transport timer).2 < timer.weight := by
  obtain ⟨due, late, place, event⟩ := timer
  cases event with
  | start url options =>
    simp only [fire, start, Timer.weight, Timer.total_append]
    exact Nat.lt_succ_of_le
      (Nat.add_le_add (total_cancelTimer_le _ _ _) (total_timersOf_le _ _ _ _ _ _))
  | _ => simp [fire, Timer.weight]

/-- Let all timers go off in order. -/
def play (line : Timeline) (transport : Transport) (queue : List Timer) : Timeline :=
  match queue with
  | [] => line
  | timer :: rest =>
    let fired := line.fire transport timer
    fired.1.play transport (Timer.insertAll fired.2 rest)
termination_by Timer.total queue
decreasing_by
  rw [Timer.total_insertAll, Timer.total_cons]
  have := total_fire_lt line transport timer
  omega

/-- The timers that start planned calls. -/
def plan (calls : List PlannedCall) : List Timer :=
  Timer.insertAll
    (calls.zipIdx.map fun (call, place) =>
      ⟨call.start, false, place, .start call.url call.options⟩) []

/-- Play planned calls from a time zero. -/
def of (fetcher : Fetcher) (transport : Transport) (calls : List PlannedCall) : Timeline :=
  (Timeline.mk fetcher [] [] []).play transport (plan calls)

/-- The return of the call at a place. -/
def return? (line : Timeline) (place : Nat) : Option (TimedNotice × FetchOutcome) :=
  line.notices.findSome? fun timed =>
    match timed.notice with
    | .returned _ outcome => if timed.place = place then some (timed, outcome) else none
    | _ => none

/-- How the call at a place ended. -/
def outcome (line : Timeline) (place : Nat) : FetchOutcome :=
  ((line.return? place).map Prod.snd).getD .aborted

/-- The failures that somebody was told about, in order: the place of the call, who
was told, and the value. -/
def failures (line : Timeline) : List (Nat × FailureListener × Json) :=
  line.notices.filterMap fun timed =>
    match timed.notice with
    | .failed _ listener value => some (timed.place, listener, value)
    | _ => none

end Timeline

end ViewSchema
