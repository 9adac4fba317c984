import ViewSchema.Container

/-!
# Updates of a container

All that becomes of a container, as far as others can see it, comes of the sizes that are applied
to it.  Each one sets the size and its classes, counts as one update, is told to the callback and
then published; the first one makes the container ready.

Main results:

- Definition `ContainerOptions.announced`: what others are told of sizes.
- Theorems `Container.applies_apply` and `Container.applies_fire`: the two places where sizes are
  applied.
- Theorem `Container.exists_applies_act`: a step applies sizes and does nothing else that can be
  seen.
-/

namespace ViewSchema

/-! ## Notices -/

namespace ContainerNotice

/-- What the callback was called with, in order. -/
def callbacks (log : List ContainerNotice) : List ResizeInfo :=
  log.filterMap fun
    | .callback info => some info
    | .publish _ => none

/-- The events published under a topic, in order. -/
def eventsOn (topic : String) (log : List ContainerNotice) : List Event :=
  log.filterMap fun
    | .callback _ => none
    | .publish publication => if publication.topic = topic then some publication.event else none

/-- Callbacks in a log that goes on come one after the other. -/
theorem callbacks_append (log later : List ContainerNotice) :
    callbacks (log ++ later) = callbacks log ++ callbacks later := List.filterMap_append

/-- Events on a topic in a log that goes on come one after the other. -/
theorem eventsOn_append (topic : String) (log later : List ContainerNotice) :
    eventsOn topic (log ++ later) = eventsOn topic log ++ eventsOn topic later :=
  List.filterMap_append

end ContainerNotice

namespace ContainerOptions

open ContainerNotice

variable (options : ContainerOptions)

def resizeTopic : String := Event.topic "resize" options.name

def readyTopic : String := Event.topic "ready" options.name

/-- Resizing and getting ready are published under topics of their own. -/
theorem resizeTopic_ne_readyTopic : options.resizeTopic ≠ options.readyTopic := by
  intro h
  have hchars := congrArg String.toList h
  simp [resizeTopic, readyTopic, Event.topic] at hchars

/-- What others are told of a size that is applied. -/
def told (size : Size) : List ContainerNotice :=
  [.callback (options.infoOf size), .publish ⟨options.resizeTopic, .resize (options.infoOf size)⟩]

/-- That the container is ready. -/
def readyNotice : ContainerNotice := .publish ⟨options.readyTopic, .ready options.name⟩

/-- What others are told of sizes that are applied one after the other, given whether the container
is ready before. -/
def announced : Bool → List Size → List ContainerNotice
  | _, [] => []
  | ready, size :: rest =>
    options.told size ++ (if ready then [] else [options.readyNotice]) ++ announced true rest

/-- After a first size the container is ready, so that later sizes are announced without the event
that says so. -/
theorem announced_append (ready : Bool) (sizes later : List Size) :
    options.announced ready (sizes ++ later) =
      options.announced ready sizes ++ options.announced (ready || !sizes.isEmpty) later := by
  induction sizes generalizing ready with
  | nil => simp [announced]
  | cons size rest ih => simp [announced, ih]

/-- Each size that is applied calls back once. -/
theorem callbacks_announced (ready : Bool) (sizes : List Size) :
    callbacks (options.announced ready sizes) = sizes.map options.infoOf := by
  induction sizes generalizing ready with
  | nil => rfl
  | cons size rest ih =>
    rw [announced, callbacks_append, ih]
    cases ready <;> rfl

/-- Each size that is applied is announced by one event. -/
theorem resizes_announced (ready : Bool) (sizes : List Size) :
    eventsOn options.resizeTopic (options.announced ready sizes) =
      sizes.map fun size => .resize (options.infoOf size) := by
  induction sizes generalizing ready with
  | nil => rfl
  | cons size rest ih =>
    rw [announced, eventsOn_append, ih]
    cases ready <;>
      simp [told, readyNotice, eventsOn, Ne.symm options.resizeTopic_ne_readyTopic]

/-- Once ready, a container is not announced as ready again. -/
theorem ready_announced_true (sizes : List Size) :
    eventsOn options.readyTopic (options.announced true sizes) = [] := by
  induction sizes with
  | nil => rfl
  | cons size rest ih =>
    rw [announced, eventsOn_append, ih]
    simp [told, eventsOn, options.resizeTopic_ne_readyTopic]

end ContainerOptions

/-! ## Sizes that are applied -/

namespace Container

variable {c d e : Container} {log later : List ContainerNotice} {sizes : List Size}

/-- A container becomes another one by applying sizes, as far as others can see, and they are told
of nothing else. -/
structure Applies (c d : Container) (log : List ContainerNotice) (sizes : List Size) : Prop where
  options_eq : d.options = c.options
  log_eq : log = c.options.announced c.readySent sizes
  updates_eq : d.updates = c.updates + sizes.length
  info_eq : d.info = (sizes.getLast?.map c.options.infoOf).or c.info
  ready_eq : d.readySent = (c.readySent || !sizes.isEmpty)
  classes_eq : d.classes = sizes.foldl
    (fun classes size => c.options.classesAt (c.options.infoOf size) classes) c.classes

/-- Nothing that others can see has changed. -/
theorem applies_nil (hoptions : d.options = c.options) (hupdates : d.updates = c.updates)
    (hinfo : d.info = c.info) (hready : d.readySent = c.readySent)
    (hclasses : d.classes = c.classes) : Applies c d [] [] := by
  refine ⟨hoptions, rfl, hupdates, hinfo, ?_, hclasses⟩
  rw [hready]
  exact (Bool.or_false _).symm

/-- What is applied in two parts of a run is applied in the whole of it. -/
theorem Applies.trans {more : List Size} (h : Applies c d log sizes)
    (hmore : Applies d e later more) : Applies c e (log ++ later) (sizes ++ more) := by
  constructor
  · rw [hmore.options_eq, h.options_eq]
  · rw [h.log_eq, hmore.log_eq, h.options_eq, h.ready_eq, ContainerOptions.announced_append]
  · rw [hmore.updates_eq, h.updates_eq, List.length_append, Nat.add_assoc]
  · rw [hmore.info_eq, h.info_eq, h.options_eq]
    rcases List.eq_nil_or_concat more with rfl | ⟨init, last, rfl⟩
    · simp
    · simp [← List.append_assoc]
  · rw [hmore.ready_eq, h.ready_eq]
    cases c.readySent <;> cases sizes <;> simp
  · rw [hmore.classes_eq, h.classes_eq, h.options_eq, List.foldl_append]

/-- A size is applied unless the container is unmounted. -/
theorem applies_apply (c : Container) (size : Size) :
    Applies c (c.apply size).1 (c.apply size).2 (if c.unmounted then [] else [size]) := by
  unfold apply
  split
  · exact applies_nil rfl rfl rfl rfl rfl
  · refine ⟨rfl, ?_, rfl, rfl, (Bool.or_true _).symm, rfl⟩
    simp [announcements, ContainerOptions.announced, ContainerOptions.told,
      ContainerOptions.readyNotice, ContainerOptions.resizeTopic, ContainerOptions.readyTopic]

/-- The size that is due, if one is. -/
def due? (c : Container) : Option Size :=
  match c.pending with
  | some (size, due) => if due ≤ c.now then some size else none
  | none => none

/-- A timer that is due applies the size that it has waited with. -/
theorem fire_of_due {size : Size} (h : c.due? = some size) :
    c.fire = { c with pending := none }.apply size := by
  unfold due? at h
  unfold fire
  cases hpending : c.pending with
  | none => simp [hpending] at h
  | some waiting =>
    simp only [hpending, Option.ite_none_right_eq_some, Option.some.injEq] at h
    simp only [h.1, if_true, h.2]

/-- A timer that is not due does nothing. -/
theorem fire_of_not_due (h : c.due? = none) : c.fire = (c, []) := by
  unfold due? at h
  unfold fire
  cases hpending : c.pending with
  | none => rfl
  | some waiting =>
    simp only [hpending, ite_eq_right_iff, reduceCtorEq, imp_false] at h
    simp only [h, if_false]

/-- The timer applies the size that is due. -/
theorem applies_fire (c : Container) :
    Applies c c.fire.1 c.fire.2 (if c.unmounted then [] else c.due?.toList) := by
  cases hdue : c.due? with
  | none =>
    rw [fire_of_not_due hdue]
    simpa using applies_nil (c := c) rfl rfl rfl rfl rfl
  | some size =>
    rw [fire_of_due hdue]
    have hcleared : Applies c { c with pending := none } [] [] :=
      applies_nil rfl rfl rfl rfl rfl
    exact hcleared.trans (applies_apply { c with pending := none } size)

/-- Observing a size applies it, or nothing, or leaves it for later. -/
theorem exists_applies_observe (c : Container) (size : Size) :
    ∃ sizes, Applies c (c.observe size).1 (c.observe size).2 sizes := by
  unfold observe
  split
  · exact ⟨[], applies_nil rfl rfl rfl rfl rfl⟩
  · split
    · exact ⟨[], applies_nil rfl rfl rfl rfl rfl⟩
    · exact ⟨_, applies_apply c size⟩

/-- What happens at once applies sizes. -/
theorem exists_applies_act (c : Container) (s : ContainerStep) :
    ∃ sizes, Applies c (c.act s).1 (c.act s).2 sizes := by
  cases s with
  | mount size => exact ⟨_, applies_apply c size⟩
  | observe size => exact exists_applies_observe c size
  | send sensor size =>
    rw [act]
    split
    · exact exists_applies_observe c size
    · exact ⟨[], applies_nil rfl rfl rfl rfl rfl⟩
  | close sensor =>
    rw [act]
    split <;> exact ⟨[], applies_nil rfl rfl rfl rfl rfl⟩
  | _ => exact ⟨[], applies_nil rfl rfl rfl rfl rfl⟩

end Container

end ViewSchema
