import ViewSchema.Proofs.Event.History

/-!
# Delivery under re-entrancy

Subscribers change subscriptions and dispatch further events while they are called.  Every
dispatch still calls those who were subscribed when it started, and no others: what happens
inside of it is another part of the history, which belongs to dispatches of its own.

Main results:

- Theorem `EventBus.leadsTo_dispatch`: a dispatch leaves the calls of all earlier ones alone, and
  every dispatch inside of it gets the calls that it is due.
- Theorem `EventBus.calls_run`: the calls of all dispatches and the subscriptions at all moments,
  whatever clients and subscribers do.
-/

namespace ViewSchema

variable {σ : Type} {history added : List (Happening σ)} {happening : Happening σ}
  {start : Nat} {event : String} {payload : Event} {scene : Scene σ}

/-! ## The calls of a dispatch -/

/-- The calls that the dispatch of a moment has made, in order. -/
def callsOf (start : Nat) (history : List (Happening σ)) : List (Delivery × Callback σ) :=
  history.filterMap fun
    | .called other delivery callback => if other = start then some (delivery, callback) else none
    | _ => none

/-- The calls that are due to subscribers. -/
def callsFor (subscribers : Subscribers σ) (event : String) (payload : Event) :
    List (Delivery × Callback σ) :=
  subscribers.map fun subscriber => (⟨event, subscriber.1, payload⟩, subscriber.2)

/-- The calls that are due once an event is dispatched. -/
def callsDue (history : List (Happening σ)) (event : String) (payload : Event) :
    List (Delivery × Callback σ) :=
  callsFor ((EventBus.after history).subscribers event) event payload

/-- Happenings have nothing to do with the dispatch of a moment. -/
def Spares (start : Nat) (added : List (Happening σ)) : Prop :=
  callsOf start added = [] ∧ .returned start ∉ added

/-- If a dispatch has started at a moment, it has made calls that were due then, in order, and
all of them once it has returned. -/
def Kept (history : List (Happening σ)) (start : Nat) : Prop :=
  ∀ event payload, history[start]? = some (.started event payload) →
    callsOf start history <+: callsDue (history.take start) event payload ∧
      (.returned start ∈ history →
        callsOf start history = callsDue (history.take start) event payload)

/-- The calls of a dispatch come in the order of the history. -/
theorem callsOf_append (start : Nat) (history added : List (Happening σ)) :
    callsOf start (history ++ added) = callsOf start history ++ callsOf start added :=
  List.filterMap_append

/-- What two parts of a history have nothing to do with, the whole has not. -/
theorem Spares.append {later : List (Happening σ)} (h : Spares start added)
    (hlater : Spares start later) : Spares start (added ++ later) := by
  constructor
  · rw [callsOf_append, h.1, hlater.1, List.append_nil]
  · simp [h.2, hlater.2]

/-- What has nothing to do with a dispatch leaves it as it is. -/
theorem Kept.append (h : Kept history start) (hlt : start < history.length)
    (hspares : Spares start added) : Kept (history ++ added) start := by
  intro event payload hstart
  rw [List.getElem?_append_left hlt] at hstart
  obtain ⟨hcalls, hreturned⟩ := h event payload hstart
  rw [callsOf_append, hspares.1, List.append_nil, List.take_append_of_le_length (Nat.le_of_lt hlt)]
  refine ⟨hcalls, fun hmem => hreturned ?_⟩
  rcases List.mem_append.1 hmem with hold | hnew
  · exact hold
  · exact absurd hnew hspares.2

/-- A dispatch keeps to what is due if its calls are the first of those, and all once it has
returned. -/
theorem kept_of_started (hstart : history[start]? = some (.started event payload))
    (hcalls : callsOf start history <+: callsDue (history.take start) event payload)
    (hall : .returned start ∈ history →
      callsOf start history = callsDue (history.take start) event payload) :
    Kept history start := by
  intro found given hfound
  rw [hstart, Option.some.injEq, Happening.started.injEq] at hfound
  obtain ⟨rfl, rfl⟩ := hfound
  exact ⟨hcalls, hall⟩

/-! ## Scenes -/

/-- A scene agrees with its history: the subscriptions are those of the history, every dispatch
has made calls that it is due, and nothing refers to a dispatch to come. -/
structure Scene.Sound (scene : Scene σ) : Prop where
  bus_eq : scene.bus = EventBus.after scene.history
  kept : ∀ start, Kept scene.history start
  fresh : ∀ start, scene.history.length ≤ start → Spares start scene.history

/-- A scene leads to another one, which agrees with its history. What has been added there
belongs to dispatches that started later. -/
structure Scene.LeadsTo (scene later : Scene σ) : Prop where
  sound : later.Sound
  grown : ∃ added, later.history = scene.history ++ added ∧
    ∀ start < scene.history.length, Spares start added

namespace Scene

/-- A scene in which nothing has happened agrees with its history. -/
theorem sound_start (memory : σ) : (Scene.start memory).Sound := by
  refine ⟨rfl, ?_, ?_⟩
  · intro moment event payload hstart
    cases hstart
  · intro moment _
    exact ⟨rfl, List.not_mem_nil⟩

/-- One more happening, of which only the dispatches that have started need to be looked at. -/
theorem Sound.snoc (h : scene.Sound) {later : Scene σ}
    (hhistory : later.history = scene.history ++ [happening])
    (hbus : later.bus = scene.bus.changed happening)
    (hkept : ∀ start < scene.history.length, Kept (scene.history ++ [happening]) start)
    (hfresh : ∀ start, scene.history.length ≤ start → Spares start [happening]) :
    later.Sound := by
  have hspares : ∀ start, scene.history.length ≤ start →
      Spares start (scene.history ++ [happening]) := fun start hle =>
    (h.fresh start hle).append (hfresh start hle)
  refine ⟨?_, ?_, ?_⟩
  · rw [hbus, hhistory, EventBus.after_snoc, h.bus_eq]
  · intro start
    rw [hhistory]
    rcases Nat.lt_or_ge start scene.history.length with hlt | hge
    · exact hkept start hlt
    · obtain ⟨hcalls, hopen⟩ := hspares start hge
      intro event payload _
      rw [hcalls]
      exact ⟨List.nil_prefix, fun hmem => absurd hmem hopen⟩
  · intro start hle
    rw [hhistory, List.length_append] at hle
    rw [hhistory]
    exact hspares start (by omega)

/-- A happening that is neither a call nor a return. -/
theorem Sound.leadsTo_snoc (h : scene.Sound) {later : Scene σ}
    (hhistory : later.history = scene.history ++ [happening])
    (hbus : later.bus = scene.bus.changed happening)
    (hspares : ∀ start, Spares start [happening]) : scene.LeadsTo later :=
  ⟨h.snoc hhistory hbus (fun start hlt => (h.kept start).append hlt (hspares start))
      fun start _ => hspares start,
    _, hhistory, fun start _ => hspares start⟩

/-- A scene that agrees with its history leads to itself. -/
theorem Sound.leadsTo_self (h : scene.Sound) : scene.LeadsTo scene :=
  ⟨h, [], (List.append_nil _).symm, fun _ _ => ⟨rfl, List.not_mem_nil⟩⟩

/-- What leads to a scene leads to whatever that one leads to. -/
theorem LeadsTo.trans {later last : Scene σ} (h : scene.LeadsTo later)
    (hlater : later.LeadsTo last) : scene.LeadsTo last := by
  obtain ⟨added, hadded, hspares⟩ := h.grown
  obtain ⟨more, hmore, hsparesMore⟩ := hlater.grown
  refine ⟨hlater.sound, added ++ more, ?_, ?_⟩
  · rw [hmore, hadded, List.append_assoc]
  · intro start hlt
    refine (hspares start hlt).append (hsparesMore start ?_)
    rw [hadded, List.length_append]
    omega

/-- Subscribing adds to the history what it does. -/
theorem Sound.leadsTo_subscribe (h : scene.Sound) (event id : String) (callback : Callback σ) :
    scene.LeadsTo (scene.subscribe event id callback) :=
  h.leadsTo_snoc rfl rfl fun _ => ⟨rfl, by simp⟩

/-- Unsubscribing adds to the history what it does. -/
theorem Sound.leadsTo_unsubscribe (h : scene.Sound) (event id : String) :
    scene.LeadsTo (scene.unsubscribe event id) :=
  h.leadsTo_snoc rfl rfl fun _ => ⟨rfl, by simp⟩

/-- The memory that callbacks share has no part in the history. -/
theorem Sound.leadsTo_keep (h : scene.Sound) (memory : σ) :
    scene.LeadsTo { scene with memory } :=
  ⟨⟨h.bus_eq, h.kept, h.fresh⟩, h.leadsTo_self.grown⟩

/-- A dispatch that starts has made no calls yet, and its calls are due from then on. -/
theorem Sound.leadsTo_started (h : scene.Sound) (event : String) (payload : Event) :
    scene.LeadsTo (scene.note (.started event payload)) :=
  h.leadsTo_snoc rfl rfl fun _ => ⟨rfl, by simp⟩

/-- A dispatch that has just started has made no calls. -/
theorem Sound.callsOf_started (h : scene.Sound) (event : String) (payload : Event) :
    callsOf scene.history.length (scene.note (.started event payload)).history = [] := by
  rw [note, callsOf_append, (h.fresh _ (Nat.le_refl _)).1]
  rfl

end Scene

/-! ## Runs -/

/-- What follows a run, or the run itself if it has not returned. -/
theorem BusRun.andThen_cases (run : BusRun σ) (next : Scene σ → BusRun σ) :
    run.ending = .returned ∧ run.andThen next = next run.scene ∨
      run.ending ≠ .returned ∧ run.andThen next = run := by
  unfold andThen
  cases run.ending <;> simp

/-- A failure inside of a callback does not get out of it. -/
theorem BusRun.ending_isolated_ne (run : BusRun σ) : run.isolated.ending ≠ .failed := by
  obtain ⟨scene, ending⟩ := run
  cases ending <;> simp [isolated]

/-- What leads on from the end of a run leads on from its start. -/
theorem Scene.LeadsTo.andThen {run : BusRun σ} {next : Scene σ → BusRun σ}
    (h : scene.LeadsTo run.scene) (hnext : run.scene.LeadsTo (next run.scene).scene) :
    scene.LeadsTo (run.andThen next).scene := by
  rcases run.andThen_cases next with ⟨-, heq⟩ | ⟨-, heq⟩
  · rw [heq]
    exact h.trans hnext
  · rw [heq]
    exact h

namespace EventBus

variable {dispatch : Scene σ → String → Event → BusRun σ}

/-- A reaction leads to its end, provided that the dispatches in it do. -/
theorem leadsTo_react
    (hdispatch : ∀ scene : Scene σ, scene.Sound → ∀ event payload,
      scene.LeadsTo (dispatch scene event payload).scene)
    (reaction : Reaction σ) (h : scene.Sound) :
    scene.LeadsTo (react dispatch reaction scene).scene := by
  induction reaction generalizing scene with
  | done => exact h.leadsTo_self
  | fail => exact h.leadsTo_self
  | look next ih => exact ih _ _ h
  | keep memory next ih => exact (h.leadsTo_keep memory).trans (ih (h.leadsTo_keep memory).sound)
  | subscribe event id callback next _ ih =>
    have hsubscribe := h.leadsTo_subscribe event id callback
    exact hsubscribe.trans (ih hsubscribe.sound)
  | unsubscribe event id next ih =>
    have hunsubscribe := h.leadsTo_unsubscribe event id
    exact hunsubscribe.trans (ih _ hunsubscribe.sound)
  | dispatch event payload next ih =>
    have hnested := hdispatch scene h event payload
    exact hnested.andThen (ih hnested.sound)

/-- A history has grown while a dispatch is under way: no other dispatch that started before has
made calls, and this one has not returned. -/
def GrowsIn (start : Nat) (history later : List (Happening σ)) : Prop :=
  ∃ added, later = history ++ added ∧ .returned start ∉ added ∧
    ∀ other < history.length, other ≠ start → Spares other added

/-- While nothing happens, a history grows by nothing. -/
theorem growsIn_self (start : Nat) (history : List (Happening σ)) :
    GrowsIn start history history :=
  ⟨[], (List.append_nil _).symm, List.not_mem_nil, fun _ _ _ => ⟨rfl, List.not_mem_nil⟩⟩

/-- A history grows in two parts. -/
theorem GrowsIn.trans {later last : List (Happening σ)} (h : GrowsIn start history later)
    (hlater : GrowsIn start later last) : GrowsIn start history last := by
  obtain ⟨added, rfl, hopen, hspares⟩ := h
  obtain ⟨more, rfl, hopenMore, hsparesMore⟩ := hlater
  refine ⟨added ++ more, List.append_assoc _ _ _, by simp [hopen, hopenMore], ?_⟩
  intro other hother hne
  refine (hspares other hother hne).append (hsparesMore other ?_ hne)
  rw [List.length_append]
  omega

/-- What a later scene adds belongs to no dispatch that started before. -/
theorem growsIn_of_leadsTo {later : Scene σ} (h : scene.LeadsTo later)
    (hlt : start < scene.history.length) : GrowsIn start scene.history later.history := by
  obtain ⟨added, hadded, hspares⟩ := h.grown
  exact ⟨added, hadded, (hspares start hlt).2, fun other hother _ => hspares other hother⟩

/-- A call belongs to its own dispatch alone. -/
theorem spares_called {other : Nat} (hne : other ≠ start) (delivery : Delivery)
    (callback : Callback σ) : Spares other [Happening.called start delivery callback] :=
  ⟨by simp [callsOf, Ne.symm hne], by simp⟩

/-- Calling the first of the subscribers that are left. -/
theorem sound_called (h : scene.Sound) {id : String} {callback : Callback σ}
    {rest : Subscribers σ} (hstart : scene.history[start]? = some (.started event payload))
    (hcalls : callsOf start scene.history ++ callsFor ((id, callback) :: rest) event payload =
      callsDue (scene.history.take start) event payload)
    (hopen : .returned start ∉ scene.history) :
    (scene.note (.called start ⟨event, id, payload⟩ callback)).Sound := by
  have hlt : start < scene.history.length := (List.getElem?_eq_some_iff.1 hstart).1
  refine h.snoc rfl rfl ?_ fun other hle => spares_called (by omega) _ _
  intro other hothers
  by_cases hsame : other = start
  · subst hsame
    refine kept_of_started ((List.getElem?_append_left hlt).trans hstart) ?_ (by simp [hopen])
    rw [List.take_append_of_le_length (Nat.le_of_lt hlt), ← hcalls, callsOf_append,
      List.prefix_append_right_inj]
    simp [callsOf, callsFor]
  · exact (h.kept other).append hothers (spares_called hsame _ _)

/-- Calling the subscribers that are left makes all calls that are due. -/
theorem sound_callAll
    (hdispatch : ∀ scene : Scene σ, scene.Sound → ∀ event payload,
      scene.LeadsTo (dispatch scene event payload).scene)
    (rest : Subscribers σ) (h : scene.Sound)
    (hstart : scene.history[start]? = some (.started event payload))
    (hcalls : callsOf start scene.history ++ callsFor rest event payload =
      callsDue (scene.history.take start) event payload)
    (hopen : .returned start ∉ scene.history) :
    let run := callAll dispatch start event payload rest scene
    run.scene.Sound ∧ GrowsIn start scene.history run.scene.history ∧
      (run.ending = .returned →
        callsOf start run.scene.history = callsDue (scene.history.take start) event payload) := by
  induction rest generalizing scene with
  | nil =>
    refine ⟨h, growsIn_self _ _, fun _ => ?_⟩
    rw [← hcalls]
    exact (List.append_nil _).symm
  | cons subscriber rest ih =>
    obtain ⟨id, callback⟩ := subscriber
    have hlt : start < scene.history.length := (List.getElem?_eq_some_iff.1 hstart).1
    let called := scene.note (.called start ⟨event, id, payload⟩ callback)
    have hcalled : GrowsIn start scene.history called.history :=
      ⟨_, rfl, by simp, fun other _ hne => spares_called hne _ _⟩
    have hltCalled : start < called.history.length := by
      simp only [called, Scene.note, List.length_append]
      omega
    have hreact := leadsTo_react hdispatch (callback payload)
      (sound_called h hstart hcalls hopen)
    let run := (react dispatch (callback payload) called).isolated
    have hrun : run.scene = (react dispatch (callback payload) called).scene :=
      BusRun.scene_isolated _
    rw [← hrun] at hreact
    have hgrown := hcalled.trans (growsIn_of_leadsTo hreact hltCalled)
    dsimp only
    rw [callAll]
    rcases run.andThen_cases (callAll dispatch start event payload rest) with
      ⟨-, heq⟩ | ⟨hcut, heq⟩
    · -- The call has added itself to those of the dispatch, and nothing else.
      obtain ⟨added, hadded, hspares⟩ := hreact.grown
      have hown := hspares start hltCalled
      have htake : run.scene.history.take start = scene.history.take start := by
        rw [hadded, List.take_append_of_le_length (Nat.le_of_lt hltCalled)]
        exact List.take_append_of_le_length (Nat.le_of_lt hlt)
      obtain ⟨hsound, hgrows, hcomplete⟩ := ih hreact.sound
        (by rw [hadded, List.getElem?_append_left hltCalled]
            exact (List.getElem?_append_left hlt).trans hstart)
        (by rw [htake, ← hcalls, hadded, callsOf_append, hown.1, List.append_nil]
            simp [Scene.note, callsOf, callsFor])
        (by rw [hadded]
            simp [Scene.note, hown.2, hopen])
      rw [htake] at hcomplete
      rw [heq]
      exact ⟨hsound, hgrown.trans hgrows, hcomplete⟩
    · rw [heq]
      exact ⟨hreact.sound, hgrown, fun hreturned => absurd hreturned hcut⟩

/-- Failures of subscribers stay theirs. -/
theorem ending_callAll_ne (rest : Subscribers σ) (scene : Scene σ) :
    (callAll dispatch start event payload rest scene).ending ≠ .failed := by
  induction rest generalizing scene with
  | nil => simp [callAll]
  | cons subscriber rest ih =>
    rw [callAll]
    rcases BusRun.andThen_cases _ (callAll dispatch start event payload rest) with
      ⟨-, heq⟩ | ⟨-, heq⟩
    · rw [heq]
      exact ih _
    · rw [heq]
      exact BusRun.ending_isolated_ne _

/-- No dispatch fails. -/
theorem ending_dispatch_ne (depth : Nat) (scene : Scene σ) (event : String) (payload : Event) :
    (EventBus.dispatch depth scene event payload).ending ≠ .failed := by
  cases depth with
  | zero => simp [EventBus.dispatch]
  | succ depth =>
    rw [EventBus.dispatch]
    rcases BusRun.andThen_cases _ fun last : Scene σ =>
      ⟨last.note (.returned scene.history.length), .returned⟩ with ⟨-, heq⟩ | ⟨-, heq⟩
    · rw [heq]
      simp
    · rw [heq]
      exact ending_callAll_ne _ _

/-- A return belongs to its own dispatch alone. -/
theorem spares_returned {other : Nat} (hne : other ≠ start) :
    Spares other ([.returned start] : List (Happening σ)) :=
  ⟨rfl, by simp [hne]⟩

/-- A dispatch may return once it has made all calls that are due. -/
theorem sound_returned (h : scene.Sound)
    (hstart : scene.history[start]? = some (.started event payload))
    (hcalls : callsOf start scene.history = callsDue (scene.history.take start) event payload) :
    (scene.note (.returned start)).Sound := by
  have hlt : start < scene.history.length := (List.getElem?_eq_some_iff.1 hstart).1
  refine h.snoc rfl rfl ?_ fun other hle => spares_returned (by omega)
  intro other hother
  by_cases hsame : other = start
  · subst hsame
    have hall : callsOf other (scene.history ++ [.returned other]) =
        callsDue ((scene.history ++ [Happening.returned other]).take other) event payload := by
      rw [List.take_append_of_le_length (Nat.le_of_lt hlt), callsOf_append, hcalls]
      exact List.append_nil _
    exact kept_of_started ((List.getElem?_append_left hlt).trans hstart)
      (hall ▸ List.prefix_rfl) fun _ => hall
  · exact (h.kept other).append hother (spares_returned hsame)

/-- What grows in a dispatch that has just started belongs to dispatches that started later. -/
theorem leadsTo_of_growsIn {later : Scene σ} (hsound : later.Sound)
    (h : GrowsIn scene.history.length (scene.note (.started event payload)).history
      later.history) : scene.LeadsTo later := by
  obtain ⟨added, hadded, -, hspares⟩ := h
  refine ⟨hsound, .started event payload :: added, ?_, ?_⟩
  · rw [hadded]
    simp [Scene.note]
  · intro other hother
    obtain ⟨hcalls, hopen⟩ := hspares other (by simp [Scene.note]; omega) (Nat.ne_of_lt hother)
    exact ⟨by simpa [callsOf] using hcalls, by simp [hopen]⟩

/-- A dispatch leads to its end: all dispatches in it have made the calls that they were due, and
those around it are left alone. If it returns, it has called all who were subscribed. -/
theorem leadsTo_dispatch (depth : Nat) (h : scene.Sound) (event : String) (payload : Event) :
    let run := EventBus.dispatch depth scene event payload
    scene.LeadsTo run.scene ∧
      (run.ending = .returned →
        callsOf scene.history.length run.scene.history =
          callsFor (scene.bus.subscribers event) event payload) := by
  induction depth generalizing scene event payload with
  | zero => exact ⟨h.leadsTo_self, fun hreturned => by cases hreturned⟩
  | succ depth ih =>
    let start := scene.history.length
    let opened := scene.note (.started event payload)
    have hopened : scene.LeadsTo opened := h.leadsTo_started event payload
    have hstart : opened.history[start]? = some (.started event payload) :=
      List.getElem?_concat_length
    have htake : opened.history.take start = scene.history := List.take_left
    have hdue : callsDue scene.history event payload =
        callsFor (scene.bus.subscribers event) event payload := by
      rw [h.bus_eq]
      rfl
    have hunreturned : .returned start ∉ opened.history := by
      simp only [opened, Scene.note, List.mem_append, List.mem_singleton, reduceCtorEq, or_false]
      exact (h.fresh start (Nat.le_refl _)).2
    let run := callAll (EventBus.dispatch depth) start event payload (scene.bus.subscribers event)
      opened
    obtain ⟨hsound, hgrows, hcomplete⟩ := sound_callAll
      (fun scene h event payload => (ih h event payload).1) (scene.bus.subscribers event)
      hopened.sound hstart (by rw [htake, h.callsOf_started, hdue]; rfl) hunreturned
    have hleads : scene.LeadsTo run.scene := leadsTo_of_growsIn hsound hgrows
    intro whole
    rcases run.andThen_cases fun scene => ⟨scene.note (.returned start), .returned⟩ with
      ⟨hreturned, heq⟩ | ⟨hcut, heq⟩
    · have hwhole : whole = ⟨run.scene.note (.returned start), .returned⟩ := heq
      have hall := hcomplete hreturned
      rw [hwhole]
      constructor
      · obtain ⟨added, hadded, hspares⟩ := hleads.grown
        obtain ⟨inner, hinner, -, -⟩ := hgrows
        have hlt : start < opened.history.length := (List.getElem?_eq_some_iff.1 hstart).1
        have hat : run.scene.history[start]? = some (.started event payload) := by
          rw [hinner, List.getElem?_append_left hlt]
          exact hstart
        refine ⟨sound_returned hsound hat ?_, added ++ [.returned start], ?_, ?_⟩
        · rw [hall, hinner, List.take_append_of_le_length (Nat.le_of_lt hlt)]
        · simp [Scene.note, hadded]
        · intro other hother
          exact (hspares other hother).append (spares_returned (Nat.ne_of_lt hother))
      · intro _
        rw [Scene.note, callsOf_append, hall, htake, hdue]
        exact List.append_nil _
    · have hwhole : whole = run := heq
      rw [hwhole]
      exact ⟨hleads, fun hreturned => absurd hreturned hcut⟩

/-! ## Clients -/

/-- Whatever a client does, the scene it leads to agrees with its history. -/
theorem sound_run (depth : Nat) (memory : σ) (client : Reaction σ) :
    (run depth memory client).scene.Sound :=
  (leadsTo_react (fun _ h event payload => (leadsTo_dispatch depth h event payload).1) client
    (Scene.sound_start memory)).sound

/-- Someone who has unsubscribed, and has not subscribed again, is not called by a dispatch that
starts then. -/
theorem not_called_of_unsubscribed (h : scene.Sound) {before between later : List (Happening σ)}
    {id : String}
    (hhistory : scene.history =
      before ++ .unsubscribed event id :: (between ++ .started event payload :: later))
    (hnone : ∀ callback, .subscribed event id callback ∉ between) :
    ∀ call ∈ callsOf (before.length + 1 + between.length) scene.history, call.1.id ≠ id := by
  rintro ⟨delivery, callback⟩ hcall rfl
  have hsplit : scene.history =
      (before ++ .unsubscribed event delivery.id :: between) ++
        .started event payload :: later := by
    rw [hhistory]
    simp
  have hlength : (before ++ Happening.unsubscribed event delivery.id :: between).length =
      before.length + 1 + between.length := by
    simp
    omega
  rw [hsplit, ← hlength] at hcall
  have hkept := h.kept (before ++ Happening.unsubscribed event delivery.id :: between).length
  rw [hsplit] at hkept
  obtain ⟨hdue, -⟩ := hkept event payload (by simp)
  rw [List.take_left] at hdue
  obtain ⟨subscriber, hsubscriber, heq⟩ := List.mem_map.1 (hdue.subset hcall)
  cases heq
  exact not_subscribed_of_unsubscribed hnone (mem_subscribers_after_iff.1 hsubscriber)

/-- Whatever clients and subscribers do, including subscriptions, dispatches and failures while
events are delivered: no dispatch fails, and one that returns has called those who were subscribed
to its event when it started, each once, in the order of subscription; this holds for the next
dispatch of a client and for all dispatches of the past, however they are nested. At every moment
the bus is well-formed, subscribers are those that the history tells, in the order in which their
subscriptions began, and subscribing again keeps a place. Someone who has unsubscribed is not
called by dispatches that start before it subscribes again. -/
theorem calls_run (depth : Nat) (memory : σ) (client : Reaction σ) :
    let scene := (run depth memory client).scene
    let history := scene.history
    scene.bus = after history ∧
    (∀ nested event payload,
      let next := EventBus.dispatch nested scene event payload
      next.ending ≠ .failed ∧ (next.ending = .returned →
        callsOf history.length next.scene.history =
          callsFor (scene.bus.subscribers event) event payload)) ∧
    (∀ start event payload, history[start]? = some (.started event payload) →
      .returned start ∈ history → callsOf start history =
        callsFor ((after (history.take start)).subscribers event) event payload) ∧
    (∀ moment,
      let bus := after (history.take moment)
      bus.WellFormed ∧
      (∀ event id callback, (id, callback) ∈ bus.subscribers event ↔
        Subscribed (history.take moment) event id callback) ∧
      (∀ event, ∃ began, Ordered (history.take moment) event began) ∧
      ∀ event id callback, id ∈ bus.ids event →
        (bus.subscribe event id callback).ids event = bus.ids event) ∧
    ∀ before event id between payload later,
      history = before ++ .unsubscribed event id :: (between ++ .started event payload :: later) →
      (∀ callback, .subscribed event id callback ∉ between) →
      ∀ call ∈ callsOf (before.length + 1 + between.length) history, call.1.id ≠ id := by
  intro scene history
  have h : scene.Sound := sound_run depth memory client
  refine ⟨h.bus_eq, ?_, ?_, ?_, ?_⟩
  · intro nested event payload
    exact ⟨ending_dispatch_ne nested scene event payload,
      (leadsTo_dispatch nested h event payload).2⟩
  · intro start event payload hstart hreturned
    exact (h.kept start event payload hstart).2 hreturned
  · intro moment
    refine ⟨wellFormed_after _, fun _ _ _ => mem_subscribers_after_iff,
      fun event => ordered_after _ event, ?_⟩
    intro event id callback hid
    rw [ids_subscribe, if_pos rfl, if_pos hid]
  · intro before event id between payload later hhistory hnone
    exact not_called_of_unsubscribed h hhistory hnone

/-- The first subscriber puts the second one off, subscribes a third one and fails. -/
def handOver : Callback Unit := fun _ =>
  .unsubscribe "update" "second" fun _ => .subscribe "update" "third" (fun _ => .done) .fail

/-- Two subscribers, of which the first one changes everything, and two dispatches. -/
def handOverClient : Reaction Unit :=
  .subscribe "update" "first" handOver <|
    .subscribe "update" "second" (fun _ => .done) <|
      .dispatch "update" (.update .null) <| .dispatch "update" (.update .null) .done

/-- The second subscriber is called once more, and the third one from the next dispatch on. -/
theorem calls_run_handOver :
    let history := (run 2 () handOverClient).scene.history
    (callsOf 2 history).map (fun call => call.1.id) = ["first", "second"] ∧
      (callsOf 8 history).map (fun call => call.1.id) = ["first", "third"] := by
  intro history
  obtain ⟨-, -, hcalls, -, -⟩ := calls_run 2 () handOverClient
  have hfirst := hcalls 2 "update" (.update .null) rfl (List.mem_of_getElem? (i := 7) rfl)
  have hsecond := hcalls 8 "update" (.update .null) rfl (List.mem_of_getElem? (i := 13) rfl)
  exact ⟨by rw [hfirst]; rfl, by rw [hsecond]; rfl⟩

end EventBus

end ViewSchema
