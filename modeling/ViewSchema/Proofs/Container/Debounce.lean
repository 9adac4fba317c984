import ViewSchema.Proofs.Container.Arrivals
import ViewSchema.Proofs.Container.Updates

/-!
# Signals that wait

The size that waits in a container is the last signal, until it has stood for the delay; then it
is applied.  Mounted sizes are applied at once and leave the one that waits alone.

Main results:

- Theorem `Container.Tracks.step`: what one step does to the size that waits, and which sizes it
  applies.
- Theorem `Container.tracks_run`: the size that waits after a run.
- Theorem `Container.run_opened`: exactly the signals that settle are applied.
-/

namespace ViewSchema

open ContainerNotice

namespace Container

variable {options : ContainerOptions} {steps : List ContainerStep} {c : Container}
  {signal : Option Arrival}

/-- A container with timers agrees with the steps that led to it, and a signal waits in it. -/
structure Tracks (options : ContainerOptions) (steps : List ContainerStep)
    (signal : Option Arrival) (c : Container) : Prop where
  options_eq : c.options = options
  timed : c.timed = true
  unmounted : c.unmounted = false
  now_eq : c.now = elapsed steps
  sensor_eq : c.sensor = (surroundings steps).sensor
  sensors_eq : c.sensors = (surroundings steps).sensors
  pending_eq : c.pending = signal.map fun arrival => (arrival.size, arrival.time + options.delay)

theorem tracks_start (options : ContainerOptions) : Tracks options [] none (start options true) :=
  ⟨rfl, rfl, rfl, rfl, rfl, rfl, rfl⟩

/-- What is due is the signal, once the delay has passed. -/
theorem Tracks.due?_eq (h : Tracks options steps signal c) :
    c.due? = (signal.filter fun arrival => arrival.time + options.delay ≤ elapsed steps).map
      Arrival.size := by
  unfold due?
  rw [h.pending_eq, h.now_eq]
  cases signal with
  | none => rfl
  | some arrival =>
    by_cases hdue : arrival.time + options.delay ≤ elapsed steps <;>
      simp [hdue, Option.filter_some]

/-- Applying a size leaves alone what is heard and what waits. -/
theorem apply_of_mounted (h : c.unmounted = false) (size : Size) :
    (c.apply size).1 =
      { c with
        classes := c.options.classesAt (c.options.infoOf size) c.classes
        info := some (c.options.infoOf size)
        updates := c.updates + 1
        readySent := true } := by
  simp [apply, h]

/-- The timer leaves a signal waiting whose delay has not passed. -/
theorem Tracks.fire (h : Tracks options steps signal c) :
    Tracks options steps
      (signal.filter fun arrival => elapsed steps < arrival.time + options.delay) c.fire.1 := by
  have hdue := h.due?_eq
  cases signal with
  | none =>
    rw [fire_of_not_due hdue]
    exact h
  | some arrival =>
    by_cases hpassed : arrival.time + options.delay ≤ elapsed steps
    · rw [Option.filter_some, if_pos (decide_eq_true hpassed)] at hdue
      rw [fire_of_due hdue, Option.filter_some, if_neg (by simpa using hpassed)]
      have hunmounted : { c with pending := none }.unmounted = false := h.unmounted
      rw [apply_of_mounted hunmounted]
      exact ⟨h.options_eq, h.timed, h.unmounted, h.now_eq, h.sensor_eq, h.sensors_eq, rfl⟩
    · rw [Option.filter_some, if_neg (by simpa using hpassed)] at hdue
      rw [fire_of_not_due hdue, Option.filter_some, if_pos (by simpa using hpassed)]
      exact h

/-- The size of an arrival that is applied at once. -/
def mountedSize (arrival : Option Arrival) : List Size :=
  ((arrival.filter Arrival.mounted).map Arrival.size).toList

/-- A container that agrees with the surroundings after one more step. -/
theorem tracks_snoc {around : Surroundings} {s : ContainerStep} {d : Container}
    (haround : (surroundings steps).after s = around) (hoptions : d.options = options)
    (htimed : d.timed = true) (hunmounted : d.unmounted = false) (hnow : d.now = around.now)
    (hsensor : d.sensor = around.sensor) (hsensors : d.sensors = around.sensors)
    (hpending : d.pending =
      signal.map fun arrival => (arrival.size, arrival.time + options.delay)) :
    Tracks options (steps ++ [s]) signal d := by
  subst haround
  refine ⟨hoptions, htimed, hunmounted, ?_, ?_, ?_, hpending⟩
  · rw [hnow, elapsed, surroundings_snoc]
  · rw [hsensor, surroundings_snoc]
  · rw [hsensors, surroundings_snoc]

/-- An observed size takes the place of the one that waits. -/
theorem Tracks.observe (h : Tracks options steps signal c) {s : ContainerStep} (size : Size)
    (haround : (surroundings steps).after s = surroundings steps) :
    Tracks options (steps ++ [s]) (some ⟨elapsed steps, size, false⟩) (c.observe size).1 ∧
      Applies c (c.observe size).1 (c.observe size).2 [] := by
  have hobserve : c.observe size =
      ({ c with pending := some (size, c.now + options.delay) }, []) := by
    simp [Container.observe, h.unmounted, h.timed, h.options_eq]
  rw [hobserve]
  refine ⟨tracks_snoc haround h.options_eq h.timed h.unmounted h.now_eq h.sensor_eq h.sensors_eq
    ?_, applies_nil rfl rfl rfl rfl rfl⟩
  rw [h.now_eq]
  rfl

/-- A step applies a mounted size at once and lets a signal take the place of the one that
waits. -/
theorem Tracks.act
    (h : Tracks options steps (waiting options.delay (elapsed steps) (arrivals steps)) c)
    {s : ContainerStep} (hmounted : s ≠ .unmount) :
    Tracks options (steps ++ [s])
      (held options.delay (elapsed steps) (arrivals steps) ((surroundings steps).arrival? s))
      (c.act s).1 ∧
    Applies c (c.act s).1 (c.act s).2 (mountedSize ((surroundings steps).arrival? s)) := by
  cases s with
  | unmount => exact absurd rfl hmounted
  | mount size =>
    have happlies := applies_apply c size
    rw [if_neg (by simp [h.unmounted])] at happlies
    refine ⟨?_, happlies⟩
    rw [Container.act, apply_of_mounted h.unmounted]
    exact tracks_snoc rfl h.options_eq h.timed h.unmounted h.now_eq h.sensor_eq h.sensors_eq
      h.pending_eq
  | observe size => exact h.observe size rfl
  | send sensor size =>
    rw [Container.act, listens, h.sensor_eq, Surroundings.arrival?]
    by_cases hheard : (surroundings steps).sensor = some sensor
    · simp only [hheard, beq_self_eq_true, if_true]
      exact h.observe size rfl
    · simp only [hheard, beq_eq_false_iff_ne.2 hheard, Bool.false_eq_true, if_false]
      exact ⟨tracks_snoc rfl h.options_eq h.timed h.unmounted h.now_eq h.sensor_eq h.sensors_eq
        h.pending_eq, applies_nil rfl rfl rfl rfl rfl⟩
  | attach =>
    refine ⟨tracks_snoc rfl h.options_eq h.timed h.unmounted h.now_eq ?_ ?_ h.pending_eq,
      applies_nil rfl rfl rfl rfl rfl⟩
    · simp [Container.act, attach, h.timed, h.sensors_eq, Surroundings.after]
    · simp [Container.act, attach, h.sensors_eq, Surroundings.after]
  | close sensor =>
    rw [Container.act, listens, h.sensor_eq]
    by_cases hheard : (surroundings steps).sensor = some sensor
    · simp only [hheard, beq_self_eq_true, if_true]
      exact ⟨tracks_snoc (if_pos hheard) h.options_eq h.timed h.unmounted h.now_eq rfl h.sensors_eq
        h.pending_eq, applies_nil rfl rfl rfl rfl rfl⟩
    · simp only [beq_eq_false_iff_ne.2 hheard, Bool.false_eq_true, if_false]
      exact ⟨tracks_snoc (if_neg hheard) h.options_eq h.timed h.unmounted h.now_eq h.sensor_eq
        h.sensors_eq h.pending_eq, applies_nil rfl rfl rfl rfl rfl⟩
  | sleep duration =>
    refine ⟨tracks_snoc rfl h.options_eq h.timed h.unmounted ?_ h.sensor_eq h.sensors_eq
      h.pending_eq, applies_nil rfl rfl rfl rfl rfl⟩
    exact congrArg (· + duration) h.now_eq

/-- The signal that is held is applied in a step if it is due. -/
def dueSize (delay : Nat) (steps : List ContainerStep) (s : ContainerStep) : List Size :=
  (((held delay (elapsed steps) (arrivals steps) ((surroundings steps).arrival? s)).filter
    fun arrival => arrival.time + delay ≤ elapsed (steps ++ [s])).map Arrival.size).toList

/-- What is held in a step waits on unless it is due. -/
theorem waiting_held (delay : Nat) (steps : List ContainerStep) (s : ContainerStep) :
    waiting delay (elapsed (steps ++ [s])) (arrivals (steps ++ [s])) =
      (held delay (elapsed steps) (arrivals steps) ((surroundings steps).arrival? s)).filter
        fun arrival => elapsed (steps ++ [s]) < arrival.time + delay := by
  rw [arrivals_snoc, elapsed, surroundings_snoc]
  exact waiting_step (arrivals steps) (surroundings steps) s

/-- A step applies a mounted size and the signal that is due; the last signal waits on. -/
theorem Tracks.step
    (h : Tracks options steps (waiting options.delay (elapsed steps) (arrivals steps)) c)
    {s : ContainerStep} (hmounted : s ≠ .unmount) :
    Tracks options (steps ++ [s])
      (waiting options.delay (elapsed (steps ++ [s])) (arrivals (steps ++ [s]))) (c.step s).1 ∧
    Applies c (c.step s).1 (c.step s).2
      (mountedSize ((surroundings steps).arrival? s) ++ dueSize options.delay steps s) := by
  obtain ⟨htracks, happlies⟩ := h.act hmounted
  have hfire := applies_fire (c.act s).1
  rw [if_neg (by simp [htracks.unmounted]), htracks.due?_eq] at hfire
  refine ⟨?_, happlies.trans hfire⟩
  rw [waiting_held]
  exact htracks.fire

theorem run_snoc (c : Container) (steps : List ContainerStep) (s : ContainerStep) :
    c.run (steps ++ [s]) =
      (((c.run steps).1.step s).1, (c.run steps).2 ++ ((c.run steps).1.step s).2) := by
  induction steps generalizing c with
  | nil => simp [run]
  | cons first rest ih =>
    rw [List.cons_append, run_cons, ih, run_cons]
    simp

/-- The size that waits after a run that is not cut short is the last signal, unless it has stood
for the delay. -/
theorem tracks_run (h : Tracks options [] none c) (steps : List ContainerStep)
    (hmounted : .unmount ∉ steps) :
    Tracks options steps (waiting options.delay (elapsed steps) (arrivals steps))
      (c.run steps).1 := by
  induction steps using List.reverseRecOn with
  | nil => exact h
  | append_singleton rest s ih =>
    rw [List.mem_append, List.mem_singleton, not_or] at hmounted
    rw [run_snoc]
    exact ((ih hmounted.1).step (Ne.symm hmounted.2)).1

/-! ## Runs of signals -/

/-- A run without mounts applies exactly the signals that settle. -/
theorem applies_run (h : Tracks options [] none c) (steps : List ContainerStep)
    (hmount : ∀ size, .mount size ∉ steps) (hmounted : .unmount ∉ steps) :
    Applies c (c.run steps).1 (c.run steps).2
      (settled options.delay (elapsed steps) (arrivals steps)) := by
  induction steps using List.reverseRecOn with
  | nil => exact applies_nil rfl rfl rfl rfl rfl
  | append_singleton rest s ih =>
    have hmountRest : ∀ size, .mount size ∉ rest := fun size hmem =>
      hmount size (List.mem_append_left _ hmem)
    have hmountStep : ∀ size, s ≠ .mount size := fun size heq =>
      hmount size (by simp [heq])
    rw [List.mem_append, List.mem_singleton, not_or] at hmounted
    have hrest := ih hmountRest hmounted.1
    have hstep := ((tracks_run h rest hmounted.1).step (Ne.symm hmounted.2)).2
    have hnone : mountedSize ((surroundings rest).arrival? s) = [] := by
      cases harrival : (surroundings rest).arrival? s with
      | none => rfl
      | some arrival =>
        have hsignal := Surroundings.mounted_of_arrival? harrival hmountStep
        simp [mountedSize, Option.filter_some, hsignal]
    have hsettled : settled options.delay (elapsed (rest ++ [s])) (arrivals (rest ++ [s])) =
        settled options.delay (elapsed rest) (arrivals rest) ++ dueSize options.delay rest s := by
      rw [dueSize, arrivals_snoc, elapsed, elapsed, surroundings_snoc]
      exact settled_step (mounted_of_mem_arrivals hmountRest) (fun _ => time_le_elapsed) hmountStep
    rw [hnone, List.nil_append] at hstep
    rw [hsettled, run_snoc]
    exact hrest.trans hstep

/-- A container with timers, mounted with a first size or not at all. -/
def opened (options : ContainerOptions) : Option Size → Container
  | none => start options true
  | some size => ((start options true).step (.mount size)).1

theorem tracks_opened (options : ContainerOptions) (first : Option Size) :
    Tracks options [] none (opened options first) := by
  cases first <;> exact ⟨rfl, rfl, rfl, rfl, rfl, rfl, rfl⟩

theorem readySent_opened (options : ContainerOptions) (first : Option Size) :
    (opened options first).readySent = first.isSome := by
  cases first <;> rfl

/-- In a run of observed and sent sizes, of sensors that come and go, and of sleeps of any lengths,
exactly those signals are applied that stand for the delay without another one, in order: each one
is an update, and is told to the callback and published once, with its breakpoint. Nothing else
is announced, except that the container is ready with the first size of all. -/
theorem run_opened (options : ContainerOptions) (first : Option Size)
    (steps : List ContainerStep) (hmount : ∀ size, .mount size ∉ steps)
    (hmounted : .unmount ∉ steps) :
    let last := (opened options first).run steps
    let sizes := settled options.delay (elapsed steps) (arrivals steps)
    last.1.updates = (opened options first).updates + sizes.length ∧
      callbacks last.2 = sizes.map options.infoOf ∧
      eventsOn options.resizeTopic last.2 = sizes.map (fun size => .resize (options.infoOf size)) ∧
      last.2 = options.announced first.isSome sizes := by
  intro last sizes
  have happlies := applies_run (tracks_opened options first) steps hmount hmounted
  have hlog : last.2 = options.announced first.isSome sizes := by
    have heq := happlies.log_eq
    rw [(tracks_opened options first).options_eq, readySent_opened] at heq
    exact heq
  refine ⟨happlies.updates_eq, ?_, ?_, hlog⟩
  · rw [hlog, ContainerOptions.callbacks_announced]
  · rw [hlog, ContainerOptions.resizes_announced]

/-- A burst of sizes, then sizes of a sensor that come at the end of the delay, within it, and after
the sensor is closed. -/
def burst : List ContainerStep :=
  [.observe ⟨500, 400⟩, .observe ⟨900, 300⟩, .attach, .sleep 200, .send 0 ⟨300, 600⟩, .sleep 199,
    .send 0 ⟨1300, 700⟩, .sleep 250, .close 0, .send 0 ⟨10, 10⟩, .sleep 500]

/-- Of the burst, the last size before each pause is applied. -/
theorem run_opened_burst :
    let last := (opened (.named "panel") (some ⟨800, 600⟩)).run burst
    last.1.updates = 3 ∧
      callbacks last.2 =
        [⟨"panel", "md", .landscape, 900, 300⟩, ⟨"panel", "xl", .landscape, 1300, 700⟩] := by
  intro last
  obtain ⟨hupdates, hcallbacks, -, -⟩ := run_opened (.named "panel") (some ⟨800, 600⟩) burst
    (by simp [burst]) (by simp [burst])
  exact ⟨hupdates, hcallbacks⟩

end Container

end ViewSchema
