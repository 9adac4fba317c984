import ViewSchema.Proofs.Container.Debounce
import ViewSchema.Proofs.Container.Lifecycle

/-!
# The size that stays

A container that is left alone for the delay has the last size that came to it, with one exception:
a mounted size is applied at once, but does not take the place of a signal that waits.  That signal
is older, is applied later, and stays.

Main results:

- Theorem `Container.info_run`: the size of a container in which no signal waits.
- Theorem `Container.endsWith_of_quiet`: the size that stays after a quiet period.
- Theorem `Container.exists_last_lost`: it need not be the last one.
-/

namespace ViewSchema

open ContainerNotice

/-- The size that stays when no other one comes: a signal that waits when the last size comes, or
else that last size. -/
def lasting (delay : Nat) (arrivals : List Arrival) : Option Size :=
  arrivals.getLast?.map fun last => ((waiting delay last.time arrivals).getD last).size

/-- A signal that waits is going to stay. -/
theorem lasting_of_waiting {delay : Nat} {steps : List ContainerStep} {signal : Arrival}
    (h : waiting delay (elapsed steps) (arrivals steps) = some signal) :
    lasting delay (arrivals steps) = some signal.size := by
  have hne : arrivals steps ≠ [] := List.ne_nil_of_mem (mem_of_waiting h)
  have hlast := List.getLast?_eq_some_getLast hne
  have htime := time_le_elapsed (List.getLast_mem hne)
  rw [waiting_later htime, Option.filter_eq_some_iff] at h
  rw [lasting, hlast, Option.map_some, h.1, Option.getD_some]

/-- A size that comes is going to stay if no signal waits. -/
theorem lasting_of_arrival {delay : Nat} {steps : List ContainerStep} {s : ContainerStep}
    {arrival : Arrival} (harrival : (surroundings steps).arrival? s = some arrival)
    (h : waiting delay (elapsed (steps ++ [s])) (arrivals (steps ++ [s])) = none) :
    lasting delay (arrivals (steps ++ [s])) = some arrival.size := by
  have htime : arrival.time = elapsed (steps ++ [s]) := by
    rw [elapsed, surroundings_snoc, Surroundings.now_of_arrival? harrival]
    exact Surroundings.time_of_arrival? harrival
  have hlast : (arrivals (steps ++ [s])).getLast? = some arrival := by
    rw [arrivals_snoc, harrival, Option.toList_some, List.getLast?_concat]
  rw [lasting, hlast, Option.map_some, htime, h, Option.getD_none]

namespace Container

variable {options : ContainerOptions} {steps : List ContainerStep} {c : Container}

/-- If no signal waits after a step, what was held in it was due. -/
theorem dueSize_of_settled {delay : Nat} {s : ContainerStep}
    (h : waiting delay (elapsed (steps ++ [s])) (arrivals (steps ++ [s])) = none) :
    dueSize delay steps s =
      ((held delay (elapsed steps) (arrivals steps) ((surroundings steps).arrival? s)).map
        Arrival.size).toList := by
  rw [waiting_held] at h
  unfold dueSize
  cases hheld : held delay (elapsed steps) (arrivals steps) ((surroundings steps).arrival? s) with
  | none => rfl
  | some arrival =>
    rw [hheld, Option.filter_some, ite_eq_right_iff] at h
    have hdue : arrival.time + delay ≤ elapsed (steps ++ [s]) := by simpa using h
    simp [Option.filter_some, hdue]

/-- When no signal waits after a size came, that size is the one that was applied last. -/
theorem getLast?_applied {delay : Nat} {s : ContainerStep} {arrival : Arrival}
    (harrival : (surroundings steps).arrival? s = some arrival)
    (h : waiting delay (elapsed (steps ++ [s])) (arrivals (steps ++ [s])) = none) :
    (mountedSize ((surroundings steps).arrival? s) ++ dueSize delay steps s).getLast? =
      some arrival.size := by
  rw [dueSize_of_settled h]
  cases hmounted : arrival.mounted with
  | false => simp [harrival, mountedSize, held, Option.filter_some, hmounted]
  | true =>
    -- No time has passed, so a signal that waited before the mount would still wait.
    have hnow : elapsed (steps ++ [s]) = elapsed steps := by
      rw [elapsed, surroundings_snoc]
      exact Surroundings.now_of_arrival? harrival
    have hnone : waiting delay (elapsed steps) (arrivals steps) = none := by
      rw [hnow, arrivals_snoc, harrival, Option.toList_some, waiting_snoc, hmounted] at h
      exact h
    simp [harrival, mountedSize, held, Option.filter_some, hmounted, hnone]

/-- A container in which no signal waits has the size that stays. -/
theorem info_run (h : Tracks options [] none c) (hinfo : c.info = none)
    (hmounted : .unmount ∉ steps)
    (hsettled : waiting options.delay (elapsed steps) (arrivals steps) = none) :
    (c.run steps).1.info = (lasting options.delay (arrivals steps)).map options.infoOf := by
  induction steps using List.reverseRecOn with
  | nil => exact hinfo
  | append_singleton rest s ih =>
    rw [List.mem_append, List.mem_singleton, not_or] at hmounted
    have htracks := tracks_run h rest hmounted.1
    have happlied := (htracks.step (Ne.symm hmounted.2)).2.info_eq
    rw [htracks.options_eq] at happlied
    rw [run_snoc, happlied]
    cases harrival : (surroundings rest).arrival? s with
    | some arrival =>
      rw [← harrival, getLast?_applied harrival hsettled, lasting_of_arrival harrival hsettled]
      rfl
    | none =>
      have harrivals : arrivals (rest ++ [s]) = arrivals rest := by
        rw [arrivals_snoc, harrival, Option.toList_none, List.append_nil]
      rw [dueSize_of_settled hsettled, harrivals, harrival]
      cases hwaiting : waiting options.delay (elapsed rest) (arrivals rest) with
      | none =>
        rw [← ih hmounted.1 hwaiting]
        simp [mountedSize, held, hwaiting]
      | some signal =>
        rw [lasting_of_waiting hwaiting]
        simp [mountedSize, held, hwaiting]

/-- The last size that is published is the one that the container has. -/
theorem Applies.last_resize {timed : Bool} {sizes : List Size} {log : List ContainerNotice}
    (h : Applies (start options timed) c log sizes) :
    (eventsOn options.resizeTopic log).getLast? = c.info.map .resize := by
  have hlog : log = options.announced false sizes := h.log_eq
  have hinfo : c.info = sizes.getLast?.map options.infoOf := h.info_eq.trans Option.or_none
  rw [hlog, ContainerOptions.resizes_announced, hinfo, List.getLast?_map, Option.map_map]
  rfl

/-- A run ends with a size: the container has it, and it is the last one that is published. -/
def EndsWith (options : ContainerOptions) (size : Size)
    (run : Container × List ContainerNotice) : Prop :=
  run.1.info = some (options.infoOf size) ∧
    (eventsOn options.resizeTopic run.2).getLast? = some (.resize (options.infoOf size))

/-- A run after which no signal waits ends with the size that stays. -/
theorem endsWith_of_lasting {size : Size} (hmounted : .unmount ∉ steps)
    (hsettled : waiting options.delay (elapsed steps) (arrivals steps) = none)
    (hlasting : lasting options.delay (arrivals steps) = some size) :
    EndsWith options size ((start options true).run steps) := by
  have hinfo := info_run (tracks_start options) rfl hmounted hsettled
  rw [hlasting, Option.map_some] at hinfo
  obtain ⟨sizes, happlies⟩ := exists_applies_performAll (start options true)
    (steps.flatMap fun step => [.act step, .fire])
  rw [← run_eq_performAll] at happlies
  refine ⟨hinfo, ?_⟩
  rw [happlies.last_resize, hinfo]
  rfl

/-- In a run of mounted, observed and sent sizes in any order and at any times, that ends with a
quiet period of at least the delay, the last size stays, if it is a signal, or if no signal waits
when it is mounted. A signal that waits when the last size is mounted stays instead of it. -/
theorem endsWith_of_quiet (options : ContainerOptions) (steps : List ContainerStep) (last : Arrival)
    (hmounted : .unmount ∉ steps) (hlast : (arrivals steps).getLast? = some last)
    (hquiet : last.time + options.delay ≤ elapsed steps) :
    (last.mounted = false ∨ waiting options.delay last.time (arrivals steps) = none →
      EndsWith options last.size ((start options true).run steps)) ∧
    ∀ older, last.mounted = true → waiting options.delay last.time (arrivals steps) = some older →
      EndsWith options older.size ((start options true).run steps) := by
  have hsettled := waiting_eq_none hlast hquiet
  have hlasting : lasting options.delay (arrivals steps) =
      some ((waiting options.delay last.time (arrivals steps)).getD last).size := by
    rw [lasting, hlast, Option.map_some]
  refine ⟨?_, ?_⟩
  · intro hfair
    refine endsWith_of_lasting hmounted hsettled (hlasting.trans ?_)
    rcases hfair with hsignal | hnone
    · obtain ⟨init, hinit⟩ := List.getLast?_eq_some_iff.1 hlast
      rw [hinit, waiting_snoc, hsignal, if_neg Bool.false_ne_true]
      split <;> rfl
    · rw [hnone, Option.getD_none]
  · intro older _ holder
    refine endsWith_of_lasting hmounted hsettled (hlasting.trans ?_)
    rw [holder, Option.getD_some]

/-- Sizes that are mounted, observed and sent, the last of them by a sensor. -/
def followed : List ContainerStep :=
  [.observe ⟨700, 500⟩, .mount ⟨300, 600⟩, .attach, .sleep 150, .observe ⟨900, 600⟩, .sleep 50,
    .send 0 ⟨1300, 700⟩, .sleep 200]

/-- A size is mounted while an older one waits. -/
def overtaken : List ContainerStep := [.observe ⟨1000, 500⟩, .mount ⟨400, 500⟩, .sleep 500]

/-- The size that is sent last stays, and the size that waits when another one is mounted. -/
theorem endsWith_of_quiet_runs :
    EndsWith (.named "main") ⟨1300, 700⟩ ((start (.named "main") true).run followed) ∧
      EndsWith (.named "main") ⟨1000, 500⟩ ((start (.named "main") true).run overtaken) :=
  ⟨(endsWith_of_quiet (.named "main") followed ⟨200, ⟨1300, 700⟩, false⟩ (by decide) (by decide)
      (by decide)).1 (.inl rfl),
    (endsWith_of_quiet (.named "main") overtaken ⟨0, ⟨400, 500⟩, true⟩ (by decide) (by decide)
      (by decide)).2 ⟨0, ⟨1000, 500⟩, false⟩ rfl (by decide)⟩

/-- It is not always the last size that stays. -/
theorem exists_last_lost :
    ¬ ∀ (options : ContainerOptions) (steps : List ContainerStep) (last : Arrival),
      .unmount ∉ steps → (arrivals steps).getLast? = some last →
      last.time + options.delay ≤ elapsed steps →
      EndsWith options last.size ((start options true).run steps) := by
  intro h
  have hclaimed := h (.named "main") overtaken ⟨0, ⟨400, 500⟩, true⟩ (by decide) (by decide)
    (by decide)
  have hactual :
      EndsWith (.named "main") ⟨1000, 500⟩ ((start (.named "main") true).run overtaken) :=
    endsWith_of_lasting (by decide) (by decide) (by decide)
  have hwidth := congrArg (Option.map ResizeInfo.width) (hclaimed.1.symm.trans hactual.1)
  have hne : some 400 ≠ some 1000 := by decide
  exact hne hwidth

end Container

end ViewSchema
