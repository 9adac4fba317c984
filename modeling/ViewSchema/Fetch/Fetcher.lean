import ViewSchema.Fetch.Request

/-!
# The fetcher

Calls that are in flight, by method and address. A call that starts while another
one with the same key is in flight takes over the key and cancels the other one.
A call returns once its request has come to an end and the time that it takes at
least has passed.

The fetcher is a machine whose steps are the events of calls, in any order:
starting, an answer, a timeout, the end of the least time, and the moment at
which a call notices that it can return. An event is what a waiting call takes,
not what happens: where an answer and a cancellation are ready at once, a call
chooses between them without bias, and the run has first what it has chosen.

Main definitions:

- `Fetcher.step` with the notices that an event gives rise to.
- `Fetcher.run` for a sequence of events.
-/

namespace ViewSchema

/-- How a call ends. -/
inductive FetchOutcome where
  | ok (value : Json)
  | aborted
  | failed (value : Json)

namespace FetchOutcome

/-- The value of a call that was not aborted. -/
def value? : FetchOutcome → Option Json
  | ok value => some value
  | failed value => some value
  | aborted => none

def isAborted : FetchOutcome → Bool
  | aborted => true
  | _ => false

end FetchOutcome

/-- How the request of a call came to an end. -/
inductive Verdict where
  | cancelled
  | answered (result : Except FetchError Response)

/-- A call that has started and not yet returned. -/
structure OpenCall where
  id : Nat
  key : String
  url : String
  options : FetchOptions
  timeout : Nat
  /-- How the request came to an end, once it has. -/
  verdict : Option Verdict
  /-- Whether the time that the call takes at least has passed. -/
  rested : Bool

/-- What the calls of a fetcher have in common. -/
structure FetchPolicy where
  base : Option Url
  timeout : Nat
  minLatency : Nat
  /-- Whether somebody listens to the failures of calls without a listener. -/
  listens : Bool
  /-- Adapts the options of a call, given its address. -/
  before : String → FetchOptions → FetchOptions
  /-- Maps the value of every call that was not aborted. -/
  after : Json → Json

namespace FetchPolicy

def standard : FetchPolicy := ⟨none, 0, 0, false, fun _ options => options, id⟩

instance : Inhabited FetchPolicy := ⟨standard⟩

end FetchPolicy

/-- Who is told about a failure. -/
inductive FailureListener where
  | call
  | fetcher
deriving DecidableEq

/-- What the outside sees of a fetcher. -/
inductive FetchNotice where
  | sent (id : Nat) (request : Request)
  | failed (id : Nat) (listener : FailureListener) (value : Json)
  | returned (id : Nat) (outcome : FetchOutcome)

/-- What happens to a fetcher. -/
inductive FetchEvent where
  | start (url : String) (options : FetchOptions)
  | answer (id : Nat) (result : Except FetchError Response)
  | expire (id : Nat)
  | rest (id : Nat)
  | resume (id : Nat)

structure Fetcher where
  policy : FetchPolicy
  /-- The headers of every request. -/
  headers : List (String × String)
  /-- The call that holds each key. -/
  inFlight : List (String × Nat)
  /-- How many calls have started; they are numbered in this order. -/
  started : Nat
  calls : List OpenCall

instance : Inhabited Fetcher := ⟨⟨default, [], [], 0, []⟩⟩

namespace Fetcher

/-- A fetcher that nothing was asked of. -/
def ofPolicy (policy : FetchPolicy) (headers : List (String × String)) : Fetcher :=
  ⟨policy, headers, [], 0, []⟩

/-- The headers of a request that asks for no others. -/
def standardHeaders : List (String × String) :=
  [("Accept", "application/json"), ("Content-Type", "application/json")]

/-- The headers of a request: those of the call go before those of the fetcher. -/
def requestHeaders (f : Fetcher) (own : List (String × String)) : List (String × String) :=
  Headers.setAll (Headers.setAll standardHeaders f.headers) own

/-- The call with a number, if it is open. -/
def call? (f : Fetcher) (id : Nat) : Option OpenCall := f.calls.find? (·.id == id)

/-- Change the call with a number. -/
def modifyCall (f : Fetcher) (id : Nat) (change : OpenCall → OpenCall) : Fetcher :=
  { f with calls := f.calls.map fun call => if call.id = id then change call else call }

/-- Give up the key of a call, unless another one has taken it over. -/
def finish (f : Fetcher) (key : String) (id : Nat) : Fetcher :=
  { f with inFlight := f.inFlight.erase (key, id) }

/-- A call fails: whoever listens is told, then it returns. -/
def failure (f : Fetcher) (id : Nat) (url : String) (listens : Bool) (error : FetchError) :
    List FetchNotice :=
  let value := error.toJson url
  (if listens then [.failed id .call value]
    else if f.policy.listens then [.failed id .fetcher value] else [])
    ++ [.returned id (.failed (f.policy.after value))]

end Fetcher

/-- The first end of a request counts. -/
def OpenCall.settle (call : OpenCall) (verdict : Verdict) : OpenCall :=
  { call with verdict := call.verdict.or (some verdict) }

/-- How a call returns, if it can. -/
def OpenCall.ready? (call : OpenCall) : Option Verdict := if call.rested then call.verdict else none

namespace Fetcher

/-- Cancel the call that holds a key, if there is one. The call takes this at once,
unless it has taken an answer before; an answer that it takes although it could
also take the cancellation is an event in front of the start that cancels it. -/
def supersede (f : Fetcher) (key : String) : Fetcher :=
  match f.inFlight.lookup key with
  | some previous => f.modifyCall previous (·.settle .cancelled)
  | none => f

/-- A call takes a key over. -/
def register (f : Fetcher) (key : String) : Fetcher :=
  let f := f.supersede key
  { f with inFlight := Fields.set f.inFlight key f.started, started := f.started + 1 }

/-- The key of a call, which is that of its adapted options. -/
def keyOf (f : Fetcher) (url : String) (options : FetchOptions) : String :=
  (f.policy.before url options).verb ++ " " ++ url

/-- The limit of a call in milliseconds, zero being none. -/
def timeoutOf (f : Fetcher) (options : FetchOptions) : Nat :=
  options.timeout.getD f.policy.timeout

/-- How long a call takes at least. -/
def minLatencyOf (f : Fetcher) (options : FetchOptions) : Nat :=
  options.minLatency.getD f.policy.minLatency

/-- Start a call. One whose address is none returns at once. -/
def start (f : Fetcher) (url : String) (options : FetchOptions) : Fetcher × List FetchNotice :=
  let key := f.keyOf url options
  let options := f.policy.before url options
  let id := f.started
  let f := f.register key
  match resolveUrl f.policy.base url options.query with
  | .error error => (f.finish key id, f.failure id url options.listens error)
  | .ok target =>
    let request : Request := ⟨options.verb, target, f.requestHeaders options.headers, options.body⟩
    let call : OpenCall :=
      ⟨id, key, url, options, f.timeoutOf options, none, f.minLatencyOf options == 0⟩
    ({ f with calls := f.calls ++ [call] }, [.sent id request])

/-- What a call returns with. -/
def conclusion (f : Fetcher) (call : OpenCall) : Verdict → List FetchNotice
  | .cancelled => [.returned call.id .aborted]
  | .answered (.error error) => f.failure call.id call.url call.options.listens error
  | .answered (.ok response) =>
    if response.isSuccess then
      [.returned call.id (.ok (f.policy.after (response.decode call.options.format)))]
    else
      f.failure call.id call.url call.options.listens
        (.status response.status (Response.parseBody response.text))

/-- A call returns if it can. -/
def resume (f : Fetcher) (id : Nat) : Fetcher × List FetchNotice :=
  match f.call? id with
  | none => (f, [])
  | some call =>
    match call.ready? with
    | none => (f, [])
    | some verdict =>
      let closed := { f with calls := f.calls.filter (·.id != id) }
      (closed.finish call.key id, f.conclusion call verdict)

/-- The request of a call takes too long, if the call has a limit. -/
def expire (f : Fetcher) (id : Nat) : Fetcher :=
  f.modifyCall id fun call =>
    if call.timeout = 0 then call else call.settle (.answered (.error (.timeout call.timeout)))

/-- One event. -/
def step (f : Fetcher) : FetchEvent → Fetcher × List FetchNotice
  | .start url options => f.start url options
  | .answer id result => (f.modifyCall id (·.settle (.answered result)), [])
  | .expire id => (f.expire id, [])
  | .rest id => (f.modifyCall id ({ · with rested := true }), [])
  | .resume id => f.resume id

/-- A sequence of events. -/
def run (f : Fetcher) : List FetchEvent → Fetcher × List FetchNotice
  | [] => (f, [])
  | event :: rest =>
    let (next, notices) := f.step event
    let (last, others) := next.run rest
    (last, notices ++ others)

end Fetcher

end ViewSchema
