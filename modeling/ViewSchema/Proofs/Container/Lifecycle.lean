import ViewSchema.Proofs.Container.Updates

/-!
# The life of a container

A container is unmeasured until the first size is applied, then ready, and mute from the moment
in which it is unmounted.  This holds wherever the timer goes off between the steps, and for steps
that come after the container is unmounted.

Main results:

- Theorem `Container.run_eq_performAll`: in a run the timer goes off after every step.
- Theorem `Container.exists_applies_performAll`: all that can be seen of a container comes of
  sizes that are applied.
- Theorem `Container.performAll_of_unmounted`: an unmounted container is mute.
- Theorem `Container.lifecycle`: what is announced, shown and counted over the life of a container.
-/

namespace ViewSchema

open ContainerNotice

/-- What may happen next: a step, or the timer goes off if a size is due. -/
inductive ContainerMove where
  | act (step : ContainerStep)
  | fire
deriving DecidableEq, Repr

namespace Container

variable {c : Container}

def perform (c : Container) : ContainerMove → Container × List ContainerNotice
  | .act step => c.act step
  | .fire => c.fire

/-- Several moves, with all notices in order. -/
def performAll (c : Container) : List ContainerMove → Container × List ContainerNotice
  | [] => (c, [])
  | move :: rest =>
    (((c.perform move).1.performAll rest).1,
      (c.perform move).2 ++ ((c.perform move).1.performAll rest).2)

theorem performAll_append (c : Container) (moves later : List ContainerMove) :
    c.performAll (moves ++ later) =
      (((c.performAll moves).1.performAll later).1,
        (c.performAll moves).2 ++ ((c.performAll moves).1.performAll later).2) := by
  induction moves generalizing c with
  | nil => rfl
  | cons move rest ih =>
    rw [List.cons_append, performAll, ih]
    simp [performAll]

/-- In a run the timer goes off after every step. -/
theorem run_eq_performAll (c : Container) (steps : List ContainerStep) :
    c.run steps = c.performAll (steps.flatMap fun step => [.act step, .fire]) := by
  induction steps generalizing c with
  | nil => rfl
  | cons s rest ih =>
    rw [run_cons, ih]
    simp [performAll, perform, step]

/-! ## What can be seen -/

theorem exists_applies_perform (c : Container) (move : ContainerMove) :
    ∃ sizes, Applies c (c.perform move).1 (c.perform move).2 sizes := by
  cases move with
  | act step => exact exists_applies_act c step
  | fire => exact ⟨_, applies_fire c⟩

/-- All that can be seen of a container comes of sizes that are applied. -/
theorem exists_applies_performAll (c : Container) (moves : List ContainerMove) :
    ∃ sizes, Applies c (c.performAll moves).1 (c.performAll moves).2 sizes := by
  induction moves generalizing c with
  | nil => exact ⟨[], applies_nil rfl rfl rfl rfl rfl⟩
  | cons move rest ih =>
    obtain ⟨sizes, hmove⟩ := exists_applies_perform c move
    obtain ⟨more, hrest⟩ := ih (c.perform move).1
    exact ⟨sizes ++ more, hmove.trans hrest⟩

/-- No size is applied to an unmounted container. -/
theorem apply_of_unmounted (h : c.unmounted = true) (size : Size) : c.apply size = (c, []) :=
  if_pos h

/-- An unmounted container takes note of no size. -/
theorem observe_of_unmounted (h : c.unmounted = true) (size : Size) : c.observe size = (c, []) :=
  if_pos h

/-- A move does nothing to an unmounted container that can be seen, and it stays unmounted. -/
theorem perform_of_unmounted (h : c.unmounted = true) (move : ContainerMove) :
    (c.perform move).1.unmounted = true ∧ Applies c (c.perform move).1 (c.perform move).2 [] := by
  have hself : Applies c c [] [] := applies_nil rfl rfl rfl rfl rfl
  cases move with
  | fire =>
    have hfire := applies_fire c
    rw [if_pos h] at hfire
    refine ⟨?_, hfire⟩
    rw [perform]
    cases hdue : c.due? with
    | none => rw [fire_of_not_due hdue]; exact h
    | some size => simp [fire_of_due hdue, apply, h]
  | act step =>
    rw [perform]
    cases step with
    | mount size =>
      rw [act, apply_of_unmounted h]
      exact ⟨h, hself⟩
    | observe size =>
      rw [act, observe_of_unmounted h]
      exact ⟨h, hself⟩
    | send sensor size =>
      rw [act, observe_of_unmounted h, ite_self]
      exact ⟨h, hself⟩
    | close sensor =>
      rw [act]
      split <;> exact ⟨h, applies_nil rfl rfl rfl rfl rfl⟩
    | unmount => exact ⟨rfl, applies_nil rfl rfl rfl rfl rfl⟩
    | attach => exact ⟨h, applies_nil rfl rfl rfl rfl rfl⟩
    | sleep duration => exact ⟨h, applies_nil rfl rfl rfl rfl rfl⟩

/-- An unmounted container is mute, whatever happens. -/
theorem performAll_of_unmounted (h : c.unmounted = true) (moves : List ContainerMove) :
    Applies c (c.performAll moves).1 (c.performAll moves).2 [] := by
  induction moves generalizing c with
  | nil => exact applies_nil rfl rfl rfl rfl rfl
  | cons move rest ih =>
    obtain ⟨hunmounted, hmove⟩ := perform_of_unmounted h move
    exact hmove.trans (ih hunmounted)

/-- From the moment in which it is unmounted, a container is mute. -/
theorem performAll_unmount (c : Container) (moves : List ContainerMove) :
    Applies c (c.performAll (.act .unmount :: moves)).1
      (c.performAll (.act .unmount :: moves)).2 [] := by
  have hunmount : Applies c c.unmount [] [] := applies_nil rfl rfl rfl rfl rfl
  have hunmounted : c.unmount.unmounted = true := rfl
  exact hunmount.trans (performAll_of_unmounted hunmounted moves)

/-! ## What is shown -/

/-- A node is an element around a content. -/
def Shows (node content : Node) : Prop :=
  ∃ e : Element Node, node = .element e ∧ e.children = [content]

theorem children_withClasses (e : Element Node) (classes : ClassList) :
    (e.withClasses classes).children = e.children := by
  unfold Element.withClasses
  split <;> rfl

/-- The placeholder is empty. -/
theorem not_shows_loadingPlaceholder (name : String) (content : Node) :
    ¬ Shows (Render.loadingPlaceholder name) content := by
  rintro ⟨e, heq, hchildren⟩
  cases heq
  have hnone := children_withClasses (Element.host "div") (.parse (name ++ "-loading loading"))
  exact absurd (hnone.symm.trans hchildren) (by simp [Element.host, Element.ofKind])

/-- A measured container shows its content. -/
theorem shows_render_of_info {info : ResizeInfo} (h : c.info = some info) (content : Node) :
    Shows (c.render content) content := by
  unfold render
  rw [h]
  refine ⟨_, rfl, ?_⟩
  exact congrArg (· ++ [content]) (children_withClasses (Element.host "div") c.classes)

theorem shows_render_iff (c : Container) (content : Node) :
    Shows (c.render content) content ↔ c.isMeasured = true := by
  unfold isMeasured
  cases h : c.info with
  | none =>
    have hplaceholder : c.render content = Render.loadingPlaceholder c.options.name := by
      simp [render, h]
    rw [hplaceholder]
    simpa using not_shows_loadingPlaceholder _ content
  | some info => simpa using shows_render_of_info h content

theorem render_eq_loadingPlaceholder_iff (c : Container) (content : Node) :
    c.render content = Render.loadingPlaceholder c.options.name ↔ c.isMeasured = false := by
  cases h : c.info with
  | none => simp [render, isMeasured, h]
  | some info =>
    have hshows := shows_render_of_info h content
    simp only [isMeasured, h, Option.isSome_some, reduceCtorEq, iff_false]
    intro heq
    exact not_shows_loadingPlaceholder _ content (heq ▸ hshows)

/-! ## The life of a container -/

theorem announced_cons (options : ContainerOptions) (size : Size) (rest : List Size) :
    options.announced false (size :: rest) =
      [.callback (options.infoOf size),
        .publish ⟨options.resizeTopic, .resize (options.infoOf size)⟩, options.readyNotice] ++
        options.announced true rest := rfl

/-- What can be seen of a container that was never measured before, told by its notices. -/
theorem Applies.seen_of_start {options : ContainerOptions} {timed : Bool} {sizes : List Size}
    {log : List ContainerNotice} (h : Applies (start options timed) c log sizes) :
    (log = [] ∧ c.updates = 0 ∨ ∃ first rest,
      log = [.callback first, .publish ⟨options.resizeTopic, .resize first⟩,
        options.readyNotice] ++ rest ∧ eventsOn options.readyTopic rest = []) ∧
    (callbacks log).length = c.updates ∧
    eventsOn options.resizeTopic log = (callbacks log).map .resize ∧
    (c.isMeasured = true ↔ 0 < c.updates) := by
  have hlog : log = options.announced false sizes := h.log_eq
  have hupdates : c.updates = sizes.length := by
    rw [h.updates_eq]
    exact Nat.zero_add _
  have hinfo := h.info_eq
  refine ⟨?_, ?_, ?_, ?_⟩
  · cases sizes with
    | nil => exact .inl ⟨hlog, hupdates⟩
    | cons size rest =>
      exact .inr ⟨_, _, hlog.trans (announced_cons options size rest),
        options.ready_announced_true rest⟩
  · rw [hlog, ContainerOptions.callbacks_announced, List.length_map, hupdates]
  · rw [hlog, ContainerOptions.callbacks_announced, ContainerOptions.resizes_announced,
      List.map_map]
    rfl
  · rw [isMeasured, hinfo, hupdates]
    cases sizes with
    | nil => simp
    | cons size rest => simp

/-- Over the life of a container, wherever the timer goes off and whatever is tried after it is
unmounted: nothing is announced, or the first size is told to the callback and published, right
after that the container is ready, and it never gets ready again. The callback is called and a size
is published once for each update. The container is measured, and shows its content and no
placeholder, as soon as there has been an update. From the moment in which it is unmounted
nothing is announced and nothing of it changes that can be seen. -/
theorem lifecycle (options : ContainerOptions) (timed : Bool) (moves : List ContainerMove) :
    let c := ((start options timed).performAll moves).1
    let log := ((start options timed).performAll moves).2
    (log = [] ∧ c.updates = 0 ∨ ∃ first rest,
      log = [.callback first, .publish ⟨options.resizeTopic, .resize first⟩,
        options.readyNotice] ++ rest ∧ eventsOn options.readyTopic rest = []) ∧
    (callbacks log).length = c.updates ∧
    eventsOn options.resizeTopic log = (callbacks log).map .resize ∧
    (c.isMeasured = true ↔ 0 < c.updates) ∧
    (∀ content, (Shows (c.render content) content ↔ 0 < c.updates) ∧
      (c.render content = Render.loadingPlaceholder options.name ↔ c.updates = 0)) ∧
    ∀ before after, moves = before ++ .act .unmount :: after →
      let last := (start options timed).performAll before
      log = last.2 ∧ c.breakpoint? = last.1.breakpoint? ∧ c.info = last.1.info ∧
        c.classes = last.1.classes ∧ c.updates = last.1.updates := by
  intro c log
  obtain ⟨sizes, happlies⟩ := exists_applies_performAll (start options timed) moves
  obtain ⟨hready, hcallbacks, hresizes, hmeasured⟩ := happlies.seen_of_start
  refine ⟨hready, hcallbacks, hresizes, hmeasured, ?_, ?_⟩
  · intro content
    have hname : c.options.name = options.name := congrArg ContainerOptions.name happlies.options_eq
    have hunmeasured : c.isMeasured = false ↔ c.updates = 0 := by
      rw [← Bool.not_eq_true, hmeasured, Nat.pos_iff_ne_zero, Decidable.not_not]
    rw [shows_render_iff, ← hname, render_eq_loadingPlaceholder_iff]
    exact ⟨hmeasured, hunmeasured⟩
  · intro before after hmoves last
    have hmute := performAll_unmount last.1 after
    have hall : (start options timed).performAll moves =
        ((last.1.performAll (.act .unmount :: after)).1,
          last.2 ++ (last.1.performAll (.act .unmount :: after)).2) := by
      rw [hmoves, performAll_append]
    have hc : c = _ := congrArg Prod.fst hall
    have hlog : log = _ := congrArg Prod.snd hall
    dsimp only at hc hlog
    rw [← hc] at hmute
    refine ⟨?_, congrArg (Option.map ResizeInfo.breakpoint) hmute.info_eq, hmute.info_eq,
      hmute.classes_eq, hmute.updates_eq⟩
    rw [hlog, hmute.log_eq]
    exact List.append_nil _

end Container

end ViewSchema
