import Mathlib.Data.List.Induction
import ViewSchema.Container

/-!
# Sizes that come to a container

Which sizes come to a container, and when, can be read off the steps of a run: time passes in
sleeps, a sensor is heard until it closes or another one is listened to, mounted sizes are applied
at once, and all others are signals, which wait for the delay.  Nothing here looks at a container.

Main results:

- Definition `arrivals`: the sizes that come in a run of steps.
- Definitions `settled` and `waiting`: the signals that have stood for the delay, and the one
  that has not yet.
- Theorems `settled_snoc` and `settled_later`: what one more signal and more time change.
-/

namespace ViewSchema

/-! ## Arrivals -/

/-- A size that comes to a container. A mounted one is applied at once; a signal waits. -/
structure Arrival where
  time : Nat
  size : Size
  mounted : Bool
deriving DecidableEq, Repr

/-- What surrounds a container: the time, the sensor that is listened to, and how many sensors
there have been. -/
structure Surroundings where
  now : Nat
  sensor : Option Nat
  sensors : Nat
deriving DecidableEq, Repr

namespace Surroundings

def initial : Surroundings := ⟨0, none, 0⟩

/-- What surrounds a container after a step. -/
def after (around : Surroundings) : ContainerStep → Surroundings
  | .attach => { around with sensor := some around.sensors, sensors := around.sensors + 1 }
  | .close sensor => if around.sensor = some sensor then { around with sensor := none } else around
  | .unmount => { around with sensor := none }
  | .sleep duration => { around with now := around.now + duration }
  | _ => around

/-- The size that comes in a step. A size that a sensor sends comes if it is listened to. -/
def arrival? (around : Surroundings) : ContainerStep → Option Arrival
  | .mount size => some ⟨around.now, size, true⟩
  | .observe size => some ⟨around.now, size, false⟩
  | .send sensor size =>
    if around.sensor = some sensor then some ⟨around.now, size, false⟩ else none
  | _ => none

theorem now_le_after (around : Surroundings) (step : ContainerStep) :
    around.now ≤ (around.after step).now := by
  cases step with
  | close sensor =>
    rw [after]
    split <;> exact Nat.le_refl _
  | sleep duration => exact Nat.le_add_right _ _
  | _ => exact Nat.le_refl _

theorem time_of_arrival? {around : Surroundings} {step : ContainerStep} {arrival : Arrival}
    (h : around.arrival? step = some arrival) : arrival.time = around.now := by
  cases step with
  | send sensor size =>
    rw [arrival?, Option.ite_none_right_eq_some] at h
    cases h.2
    rfl
  | mount size => cases h; rfl
  | observe size => cases h; rfl
  | _ => cases h

/-- No time passes in a step in which a size comes. -/
theorem now_of_arrival? {around : Surroundings} {step : ContainerStep} {arrival : Arrival}
    (h : around.arrival? step = some arrival) : (around.after step).now = around.now := by
  cases step with
  | sleep duration => cases h
  | close sensor => cases h
  | _ => rfl

/-- Without a mount, what comes is a signal. -/
theorem mounted_of_arrival? {around : Surroundings} {step : ContainerStep} {arrival : Arrival}
    (h : around.arrival? step = some arrival) (hmount : ∀ size, step ≠ .mount size) :
    arrival.mounted = false := by
  cases step with
  | mount size => exact absurd rfl (hmount size)
  | send sensor size =>
    rw [arrival?, Option.ite_none_right_eq_some] at h
    cases h.2
    rfl
  | observe size => cases h; rfl
  | _ => cases h

end Surroundings

/-- What surrounds a container after a run of steps. -/
def surroundings (steps : List ContainerStep) : Surroundings :=
  steps.foldl Surroundings.after .initial

/-- How long a run of steps takes. -/
def elapsed (steps : List ContainerStep) : Nat := (surroundings steps).now

def arrivalsIn (around : Surroundings) : List ContainerStep → List Arrival
  | [] => []
  | step :: rest => (around.arrival? step).toList ++ arrivalsIn (around.after step) rest

/-- The sizes that come to a container in a run of steps. -/
def arrivals (steps : List ContainerStep) : List Arrival := arrivalsIn .initial steps

theorem surroundings_snoc (steps : List ContainerStep) (step : ContainerStep) :
    surroundings (steps ++ [step]) = (surroundings steps).after step := by
  simp [surroundings]

theorem arrivalsIn_snoc (around : Surroundings) (steps : List ContainerStep)
    (step : ContainerStep) :
    arrivalsIn around (steps ++ [step]) =
      arrivalsIn around steps ++
        ((steps.foldl Surroundings.after around).arrival? step).toList := by
  induction steps generalizing around with
  | nil => simp [arrivalsIn]
  | cons first rest ih => simp [arrivalsIn, ih]

theorem arrivals_snoc (steps : List ContainerStep) (step : ContainerStep) :
    arrivals (steps ++ [step]) =
      arrivals steps ++ ((surroundings steps).arrival? step).toList :=
  arrivalsIn_snoc .initial steps step

/-- Nothing has come in the future. -/
theorem time_le_elapsed {steps : List ContainerStep} {arrival : Arrival}
    (h : arrival ∈ arrivals steps) : arrival.time ≤ elapsed steps := by
  induction steps using List.reverseRecOn with
  | nil => cases h
  | append_singleton rest step ih =>
    have hnow := (surroundings rest).now_le_after step
    rw [← surroundings_snoc] at hnow
    rw [arrivals_snoc, List.mem_append, Option.mem_toList] at h
    rcases h with hold | hnew
    · exact Nat.le_trans (ih hold) hnow
    · rw [Surroundings.time_of_arrival? hnew]
      exact hnow

/-- Sizes are listed in the order of time. -/
theorem sorted_arrivals (steps : List ContainerStep) :
    (arrivals steps).Pairwise fun earlier later => earlier.time ≤ later.time := by
  induction steps using List.reverseRecOn with
  | nil => exact List.Pairwise.nil
  | append_singleton rest step ih =>
    rw [arrivals_snoc, List.pairwise_append]
    refine ⟨ih, ?_, ?_⟩
    · cases (surroundings rest).arrival? step <;> simp
    · intro earlier hearlier later hlater
      rw [Surroundings.time_of_arrival? (Option.mem_toList.1 hlater)]
      exact time_le_elapsed hearlier

/-- Without mounts, all that comes are signals. -/
theorem mounted_of_mem_arrivals {steps : List ContainerStep}
    (hmount : ∀ size, .mount size ∉ steps) :
    ∀ arrival ∈ arrivals steps, arrival.mounted = false := by
  induction steps using List.reverseRecOn with
  | nil => simp [arrivals, arrivalsIn]
  | append_singleton rest step ih =>
    intro arrival harrival
    rw [arrivals_snoc, List.mem_append, Option.mem_toList] at harrival
    rcases harrival with hold | hnew
    · exact ih (fun size hmem => hmount size (List.mem_append_left _ hmem)) arrival hold
    · refine Surroundings.mounted_of_arrival? hnew ?_
      rintro size rfl
      exact hmount size (by simp)

/-! ## Signals that settle -/

/-- The sizes, up to a time, that stood for the delay without another one. -/
def settled (delay now : Nat) : List Arrival → List Size
  | [] => []
  | arrival :: later =>
    if (∀ other ∈ later, arrival.time + delay ≤ other.time) ∧ arrival.time + delay ≤ now then
      arrival.size :: settled delay now later
    else settled delay now later

/-- The last signal, as long as it has not stood for the delay. -/
def waiting (delay now : Nat) (arrivals : List Arrival) : Option Arrival :=
  ((arrivals.filter fun arrival => !arrival.mounted).getLast?).filter fun arrival =>
    now < arrival.time + delay

/-- The signal that waits when a size may have come and the timer has not gone off yet. -/
def held (delay now : Nat) (arrivals : List Arrival) (arrival : Option Arrival) :
    Option Arrival :=
  (arrival.filter fun arrival => !arrival.mounted).or (waiting delay now arrivals)

variable {delay now later : Nat} {arrivals : List Arrival} {arrival : Arrival}

/-- A mounted size leaves the signal alone that waits; a new signal takes its place. -/
theorem waiting_snoc (delay now : Nat) (arrivals : List Arrival) (arrival : Arrival) :
    waiting delay now (arrivals ++ [arrival]) =
      if arrival.mounted then waiting delay now arrivals
      else if now < arrival.time + delay then some arrival else none := by
  unfold waiting
  cases hmounted : arrival.mounted with
  | true => simp [List.filter_append, hmounted]
  | false => simp [List.filter_append, hmounted, Option.filter_some]

/-- Time only ends waiting. -/
theorem waiting_later (hlater : now ≤ later) (arrivals : List Arrival) :
    waiting delay later arrivals =
      (waiting delay now arrivals).filter fun arrival => later < arrival.time + delay := by
  unfold waiting
  rw [Option.filter_filter]
  congr 1
  funext arrival
  rw [Bool.eq_iff_iff]
  simp only [Bool.and_eq_true, decide_eq_true_eq]
  omega

theorem settled_snoc (delay now : Nat) (arrivals : List Arrival) (arrival : Arrival) :
    settled delay now (arrivals ++ [arrival]) =
      settled delay (min arrival.time now) arrivals ++
        (if arrival.time + delay ≤ now then [arrival.size] else []) := by
  induction arrivals with
  | nil => simp [settled]
  | cons first rest ih =>
    have hiff : ((∀ other ∈ rest ++ [arrival], first.time + delay ≤ other.time) ∧
          first.time + delay ≤ now) ↔
        (∀ other ∈ rest, first.time + delay ≤ other.time) ∧
          first.time + delay ≤ min arrival.time now := by
      simp only [List.forall_mem_append, List.forall_mem_singleton, Nat.le_min, and_assoc]
    rw [List.cons_append, settled, settled, ih]
    simp only [hiff]
    split <;> simp

/-- After one more step, the signal that is held waits on unless it is due. -/
theorem waiting_step (arrivals : List Arrival) (around : Surroundings) (step : ContainerStep) :
    waiting delay (around.after step).now (arrivals ++ (around.arrival? step).toList) =
      (held delay around.now arrivals (around.arrival? step)).filter fun arrival =>
        (around.after step).now < arrival.time + delay := by
  cases harrival : around.arrival? step with
  | none =>
    rw [Option.toList_none, List.append_nil]
    exact waiting_later (around.now_le_after step) arrivals
  | some arrival =>
    rw [Surroundings.now_of_arrival? harrival, Option.toList_some, waiting_snoc]
    cases hmounted : arrival.mounted with
    | true =>
      rw [if_pos rfl, waiting_later (Nat.le_refl around.now)]
      simp [held, hmounted, Option.filter_some]
    | false => simp [held, hmounted, Option.filter_some]

theorem mem_of_waiting (h : waiting delay now arrivals = some arrival) : arrival ∈ arrivals := by
  unfold waiting at h
  exact (List.mem_filter.1 (List.mem_of_getLast? (Option.filter_eq_some_iff.1 h).1)).1

/-- Nothing waits once the delay has passed since the last size. -/
theorem waiting_eq_none {steps : List ContainerStep} {last : Arrival}
    (hlast : (ViewSchema.arrivals steps).getLast? = some last) (hquiet : last.time + delay ≤ now) :
    waiting delay now (ViewSchema.arrivals steps) = none := by
  rw [Option.eq_none_iff_forall_not_mem]
  intro arrival hwaiting
  have hsorted := sorted_arrivals steps
  obtain ⟨init, hinit⟩ := List.getLast?_eq_some_iff.1 hlast
  have hmem := mem_of_waiting hwaiting
  rw [hinit, List.pairwise_append] at hsorted
  rw [hinit, List.mem_append, List.mem_singleton] at hmem
  have htime : arrival.time ≤ last.time := by
    rcases hmem with hold | rfl
    · exact hsorted.2.2 arrival hold last (List.mem_singleton.2 rfl)
    · exact Nat.le_refl _
  have hlater : now < arrival.time + delay := by
    unfold waiting at hwaiting
    simpa using (Option.filter_eq_some_iff.1 hwaiting).2
  omega

/-- Time lets the signal settle that waits, and no other one. -/
theorem settled_later (hmounted : ∀ arrival ∈ arrivals, arrival.mounted = false)
    (htimes : ∀ arrival ∈ arrivals, arrival.time ≤ now) (hlater : now ≤ later) :
    settled delay later arrivals = settled delay now arrivals ++
      (((waiting delay now arrivals).filter fun arrival => arrival.time + delay ≤ later).map
        Arrival.size).toList := by
  rcases List.eq_nil_or_concat arrivals with rfl | ⟨init, last, rfl⟩
  · rfl
  · rw [List.concat_eq_append] at hmounted htimes ⊢
    have htime : last.time ≤ now := htimes last (by simp)
    have hlast : last.mounted = false := hmounted last (by simp)
    rw [settled_snoc, settled_snoc, Nat.min_eq_left htime,
      Nat.min_eq_left (Nat.le_trans htime hlater), waiting_snoc, hlast]
    by_cases hnow : now < last.time + delay
    · have hunsettled : ¬ last.time + delay ≤ now := by omega
      by_cases hdue : last.time + delay ≤ later <;>
        simp [hnow, hunsettled, hdue, Option.filter_some]
    · have hsettled : last.time + delay ≤ now := by omega
      have hdue : last.time + delay ≤ later := by omega
      simp [hnow, hsettled, hdue]

/-- One more step of a run without mounts: the signal that is held settles if it is due. -/
theorem settled_step {around : Surroundings} {step : ContainerStep}
    (hmounted : ∀ arrival ∈ arrivals, arrival.mounted = false)
    (htimes : ∀ arrival ∈ arrivals, arrival.time ≤ around.now)
    (hmount : ∀ size, step ≠ .mount size) :
    settled delay (around.after step).now (arrivals ++ (around.arrival? step).toList) =
      settled delay around.now arrivals ++
        (((held delay around.now arrivals (around.arrival? step)).filter fun arrival =>
          arrival.time + delay ≤ (around.after step).now).map Arrival.size).toList := by
  cases harrival : around.arrival? step with
  | none =>
    have hnone : held delay around.now arrivals none = waiting delay around.now arrivals := rfl
    rw [hnone, Option.toList_none, List.append_nil]
    exact settled_later hmounted htimes (around.now_le_after step)
  | some arrival =>
    have htime := Surroundings.time_of_arrival? harrival
    have hsignal := Surroundings.mounted_of_arrival? harrival hmount
    rw [Surroundings.now_of_arrival? harrival, Option.toList_some, settled_snoc, htime,
      Nat.min_self]
    by_cases hdue : around.now + delay ≤ around.now <;>
      simp [held, hsignal, Option.filter_some, htime, hdue]

end ViewSchema
