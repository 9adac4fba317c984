import ViewSchema.Proofs.Container.Arrivals
import ViewSchema.Proofs.Container.Lifecycle

/-!
# What an unmounted container holds

Unmounting drops the size that waits and the sensor that is listened to.  No size waits in the
container ever again, since an unmounted container takes note of none.  It does listen to sensors
that are attached later, though: attaching does not ask whether the container is still mounted.

Main results:

- Definition `Followed`: which sensor is listened to after a run of steps.
- Theorem `Container.around_performAll`: time and sensors go on in an unmounted container as
  in any other one.
- Theorem `Container.held_after_unmount`: what a container holds after it is unmounted.
- Theorem `Container.exists_heard_unmounted`: it may hold a sensor.
-/

namespace ViewSchema

/-! ## The sensor that is followed -/

/-- A sensor is followed if it was attached last and since then neither the container was unmounted
nor the sensor closed. Sensors are numbered in the order in which they are attached. -/
def Followed (first : Nat) (steps : List ContainerStep) (sensor : Nat) : Prop :=
  ∃ before after, steps = before ++ .attach :: after ∧ sensor = first + before.count .attach ∧
    .attach ∉ after ∧ .unmount ∉ after ∧ .close sensor ∉ after

variable {first sensor : Nat} {steps : List ContainerStep}

/-- A step begins to follow a sensor, or keeps following one. -/
theorem followed_snoc (s : ContainerStep) :
    Followed first (steps ++ [s]) sensor ↔
      (s = .attach ∧ sensor = first + steps.count .attach) ∨
        (Followed first steps sensor ∧ s ≠ .attach ∧ s ≠ .unmount ∧ s ≠ .close sensor) := by
  constructor
  · rintro ⟨before, after, hsteps, hsensor, hattach, hunmount, hclose⟩
    rcases List.eq_nil_or_concat after with rfl | ⟨init, last, rfl⟩
    · obtain ⟨rfl, hlast⟩ := List.append_inj' hsteps rfl
      cases hlast
      exact .inl ⟨rfl, hsensor⟩
    · rw [List.concat_eq_append] at hsteps hattach hunmount hclose
      rw [← List.cons_append, ← List.append_assoc] at hsteps
      obtain ⟨rfl, hlast⟩ := List.append_inj' hsteps rfl
      cases hlast
      simp only [List.mem_append, List.mem_singleton, not_or] at hattach hunmount hclose
      exact .inr ⟨⟨before, init, rfl, hsensor, hattach.1, hunmount.1, hclose.1⟩,
        Ne.symm hattach.2, Ne.symm hunmount.2, Ne.symm hclose.2⟩
  · rintro (⟨rfl, hsensor⟩ | ⟨⟨before, after, rfl, hsensor, hattach, hunmount, hclose⟩, hne⟩)
    · exact ⟨steps, [], rfl, hsensor, List.not_mem_nil, List.not_mem_nil, List.not_mem_nil⟩
    · refine ⟨before, after ++ [s], by simp, hsensor, ?_, ?_, ?_⟩
      · simp [hattach, Ne.symm hne.1]
      · simp [hunmount, Ne.symm hne.2.1]
      · simp [hclose, Ne.symm hne.2.2]

/-- No sensor is followed if none is attached. -/
theorem not_followed (h : .attach ∉ steps) : ¬ Followed first steps sensor := by
  rintro ⟨before, after, rfl, -⟩
  exact h (by simp)

namespace Surroundings

variable {around : Surroundings}

theorem sensors_foldl_after (around : Surroundings) (steps : List ContainerStep) :
    (steps.foldl after around).sensors = around.sensors + steps.count .attach := by
  induction steps using List.reverseRecOn with
  | nil => rfl
  | append_singleton steps s ih =>
    rw [List.foldl_append, List.foldl_cons, List.foldl_nil, List.count_append]
    cases s with
    | attach => simp [after, ih, Nat.add_assoc]
    | close sensor =>
      rw [after]
      split <;> simp [ih]
    | _ => simp [after, ih]

/-- Where no sensor is listened to at first, the one that is listened to is the one followed. -/
theorem sensor_foldl_after_iff (h : around.sensor = none) (steps : List ContainerStep) :
    (steps.foldl after around).sensor = some sensor ↔ Followed around.sensors steps sensor := by
  induction steps using List.reverseRecOn with
  | nil => simp [h, not_followed]
  | append_singleton steps s ih =>
    rw [List.foldl_append, List.foldl_cons, List.foldl_nil, followed_snoc, ← ih]
    cases s with
    | attach => simp [after, sensors_foldl_after, eq_comm]
    | close other =>
      rw [after]
      split
      · rename_i hheard
        simp [hheard]
      · rename_i hother
        have hne : (steps.foldl after around).sensor = some sensor → ¬ other = sensor := by
          rintro hheard rfl
          exact hother hheard
        simpa using hne
    | unmount => simp [after]
    | _ => simp [after]

end Surroundings

/-! ## Sensors of a container -/

/-- The steps among moves. -/
def stepsOf (moves : List ContainerMove) : List ContainerStep :=
  moves.filterMap fun
    | .act step => some step
    | .fire => none

theorem mem_stepsOf {step : ContainerStep} {moves : List ContainerMove} :
    step ∈ stepsOf moves ↔ .act step ∈ moves := by
  unfold stepsOf
  rw [List.mem_filterMap]
  constructor
  · rintro ⟨move, hmove, hstep⟩
    cases move with
    | act other => cases hstep; exact hmove
    | fire => cases hstep
  · exact fun hmove => ⟨.act step, hmove, rfl⟩

namespace Container

variable {c : Container}

/-- What surrounds a container, as far as it knows. -/
def around (c : Container) : Surroundings := ⟨c.now, c.sensor, c.sensors⟩

@[simp] theorem around_apply (c : Container) (size : Size) :
    (c.apply size).1.around = c.around := by
  unfold apply
  split <;> rfl

@[simp] theorem timed_apply (c : Container) (size : Size) :
    (c.apply size).1.timed = c.timed := by
  unfold apply
  split <;> rfl

@[simp] theorem around_observe (c : Container) (size : Size) :
    (c.observe size).1.around = c.around := by
  unfold observe
  split
  · rfl
  · split
    · rfl
    · exact around_apply c size

@[simp] theorem timed_observe (c : Container) (size : Size) :
    (c.observe size).1.timed = c.timed := by
  unfold observe
  split
  · rfl
  · split
    · rfl
    · exact timed_apply c size

/-- The timer leaves the surroundings alone. -/
theorem around_fire (c : Container) :
    c.fire.1.around = c.around ∧ c.fire.1.timed = c.timed := by
  cases hdue : c.due? with
  | none => rw [fire_of_not_due hdue]; exact ⟨rfl, rfl⟩
  | some size =>
    rw [fire_of_due hdue, around_apply, timed_apply]
    exact ⟨rfl, rfl⟩

/-- A container with timers keeps up with its surroundings in every step. -/
theorem around_act (h : c.timed = true) (s : ContainerStep) :
    (c.act s).1.around = c.around.after s ∧ (c.act s).1.timed = true := by
  cases s with
  | mount size => exact ⟨around_apply c size, (timed_apply c size).trans h⟩
  | observe size => exact ⟨around_observe c size, (timed_observe c size).trans h⟩
  | send sensor size =>
    rw [act]
    split
    · exact ⟨around_observe c size, (timed_observe c size).trans h⟩
    · exact ⟨rfl, h⟩
  | attach =>
    refine ⟨?_, h⟩
    simp [act, attach, around, Surroundings.after, h]
  | close sensor =>
    by_cases hheard : c.sensor = some sensor
    · simp [act, listens, around, Surroundings.after, hheard, h]
    · simp [act, listens, around, Surroundings.after, hheard, h]
  | unmount => exact ⟨rfl, h⟩
  | sleep duration => exact ⟨rfl, h⟩

/-- Time and sensors follow the steps, whether the container is mounted or not. -/
theorem around_performAll (h : c.timed = true) (moves : List ContainerMove) :
    (c.performAll moves).1.around =
        (stepsOf moves).foldl Surroundings.after c.around ∧
      (c.performAll moves).1.timed = true := by
  induction moves generalizing c with
  | nil => exact ⟨rfl, h⟩
  | cons move rest ih =>
    cases move with
    | act s =>
      obtain ⟨haround, htimed⟩ := around_act h s
      have hrest := ih htimed
      rw [haround] at hrest
      exact hrest
    | fire =>
      obtain ⟨haround, htimed⟩ := around_fire c
      have hrest := ih (htimed.trans h)
      rw [haround] at hrest
      exact hrest

theorem listens_iff (c : Container) (sensor : Nat) :
    c.listens sensor = true ↔ c.around.sensor = some sensor :=
  beq_iff_eq

/-! ## After a container is unmounted -/

/-- In an unmounted container in which no size waits, none comes to wait. -/
theorem pending_perform (hunmounted : c.unmounted = true) (hpending : c.pending = none)
    (move : ContainerMove) : (c.perform move).1.pending = none := by
  cases move with
  | fire => simp [perform, fire, hpending]
  | act s =>
    rw [perform]
    cases s with
    | mount size => rw [act, apply_of_unmounted hunmounted]; exact hpending
    | observe size => rw [act, observe_of_unmounted hunmounted]; exact hpending
    | send sensor size => rw [act, observe_of_unmounted hunmounted, ite_self]; exact hpending
    | close sensor =>
      rw [act]
      split <;> exact hpending
    | unmount => rfl
    | attach => exact hpending
    | sleep duration => exact hpending

theorem pending_performAll (hunmounted : c.unmounted = true) (hpending : c.pending = none)
    (moves : List ContainerMove) : (c.performAll moves).1.pending = none := by
  induction moves generalizing c with
  | nil => exact hpending
  | cons move rest ih =>
    exact ih (perform_of_unmounted hunmounted move).1 (pending_perform hunmounted hpending move)

/-- An unmounted container listens to the sensor that is followed from then on. -/
theorem listens_performAll_unmount (h : c.timed = true) (moves : List ContainerMove)
    (sensor : Nat) : (c.unmount.performAll moves).1.listens sensor = true ↔
      Followed c.sensors (stepsOf moves) sensor := by
  have htimed : c.unmount.timed = true := h
  rw [listens_iff, (around_performAll htimed moves).1,
    Surroundings.sensor_foldl_after_iff rfl]
  rfl

/-- Every sensor that is attached gets a number of its own. -/
theorem sensors_performAll_start (options : ContainerOptions) (moves : List ContainerMove) :
    ((start options true).performAll moves).1.sensors = (stepsOf moves).count .attach := by
  have haround := (around_performAll (c := start options true) rfl moves).1
  have hsensors := congrArg Surroundings.sensors haround
  rw [Surroundings.sensors_foldl_after] at hsensors
  exact hsensors.trans (Nat.zero_add _)

/-- In every run of a container with timers that go off at any time, after the container is
unmounted no size waits, whatever happens later. A sensor is listened to exactly if it is attached
after that, as the last one, and neither closed nor dropped by unmounting again; so no sensor is
listened to if none is attached after the container is unmounted. -/
theorem held_after_unmount (options : ContainerOptions) (before after : List ContainerMove) :
    let c := ((start options true).performAll (before ++ .act .unmount :: after)).1
    c.pending = none ∧
      (∀ sensor, c.listens sensor = true ↔
        Followed ((stepsOf before).count .attach) (stepsOf after) sensor) ∧
      (.act .attach ∉ after → c.sensor = none ∧ ∀ sensor, c.listens sensor = false) := by
  intro c
  have hc : c = (((start options true).performAll before).1.unmount.performAll after).1 := by
    show ((start options true).performAll (before ++ .act .unmount :: after)).1 = _
    rw [performAll_append]
    rfl
  have htimed := (around_performAll (c := start options true) rfl before).2
  have hlistens : ∀ sensor, c.listens sensor = true ↔
      Followed ((stepsOf before).count .attach) (stepsOf after) sensor := by
    intro sensor
    rw [hc, listens_performAll_unmount htimed, sensors_performAll_start]
  refine ⟨?_, hlistens, ?_⟩
  · rw [hc]
    exact pending_performAll rfl rfl after
  · intro hattach
    have hnone : ∀ sensor, c.listens sensor ≠ true := fun sensor hheard =>
      not_followed (mt mem_stepsOf.1 hattach) ((hlistens sensor).1 hheard)
    refine ⟨?_, fun sensor => Bool.eq_false_iff.2 (hnone sensor)⟩
    rw [Option.eq_none_iff_forall_ne_some]
    exact fun sensor hsensor => hnone sensor ((listens_iff c sensor).2 hsensor)

/-- A container with a sensor and a size that waits. -/
def busy : List ContainerMove :=
  [.act .attach, .act (.mount ⟨800, 600⟩), .act (.send 0 ⟨400, 700⟩), .act (.sleep 50)]

/-- Sizes that are observed and sent too late. -/
def belated : List ContainerMove :=
  [.act (.send 0 ⟨900, 300⟩), .act (.observe ⟨300, 600⟩), .act (.sleep 500), .fire]

/-- Unmounting a busy container leaves nothing in it, and what comes too late does not either. -/
theorem held_after_unmount_belated :
    let c := ((start (.named "main") true).performAll (busy ++ .act .unmount :: belated)).1
    .act .attach ∉ belated ∧ c.pending = none ∧ c.sensor = none ∧
      ∀ sensor, c.listens sensor = false := by
  have hattach : .act .attach ∉ belated := by decide
  obtain ⟨hpending, -, hnone⟩ := held_after_unmount (.named "main") busy belated
  exact ⟨hattach, hpending, hnone hattach⟩

/-- It is not always so that an unmounted container holds nothing: a sensor that is attached to it
is listened to. -/
theorem exists_heard_unmounted :
    ¬ ∀ (options : ContainerOptions) (moves : List ContainerMove), .act .unmount ∈ moves →
      ((start options true).performAll moves).1.pending = none ∧
        ((start options true).performAll moves).1.sensor = none ∧
        ∀ sensor, ((start options true).performAll moves).1.listens sensor = false := by
  intro h
  obtain ⟨-, -, hsilent⟩ := h (.named "main") [.act .unmount, .act .attach] (by decide)
  have hheard : ((start (.named "main") true).performAll
      [.act .unmount, .act .attach]).1.listens 0 = true := rfl
  exact Bool.false_ne_true ((hsilent 0).symm.trans hheard)

end Container

end ViewSchema
