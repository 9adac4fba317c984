import ViewSchema.Proofs.ClassList.Tokens
import ViewSchema.Proofs.Container.Lifecycle
import ViewSchema.Proofs.Json.Fields

/-!
# Classes of a container

Each size that is applied takes the classes of all sizes away and adds its own.  What is left of
the sizes before it is at most the class of every container that has a size, which it adds itself,
so the classes are those of the last size however many came before it.

Main results:

- Theorem `ContainerOptions.mem_classesAt`: one size that is applied.
- Theorem `ContainerOptions.mem_classesAfter`: any number of sizes.
- Theorem `Container.performAll_withExtras`: the order in which the further classes of breakpoints
  are listed does not matter for anything that happens.
- Theorem `Container.classes_of_last_size`: the classes of a container with a size.
-/

namespace ViewSchema

/-- The breakpoint of a width is one of the table. -/
theorem BreakpointTable.mem_of_resolveOrFirst? {table : BreakpointTable} {width : Nat}
    {name : String} (h : table.resolveOrFirst? width = some name) : name ∈ table.names := by
  unfold BreakpointTable.resolveOrFirst? BreakpointTable.resolve? at h
  rcases Option.or_eq_some_iff.1 h with hlast | ⟨-, hfirst⟩
  · obtain ⟨entry, hentry, rfl⟩ := Option.map_eq_some_iff.1 hlast
    exact List.mem_map_of_mem ((List.mem_filter.1 (List.mem_of_getLast? hentry)).1)
  · obtain ⟨entry, hentry, rfl⟩ := Option.map_eq_some_iff.1 hfirst
    exact List.mem_map_of_mem (List.mem_of_head? hentry)

namespace ContainerOptions

variable {options : ContainerOptions} {classes : ClassList} {token : String}

/-- The classes of a container without a size: those of its name and those it is given. -/
def ownClasses (options : ContainerOptions) : ClassList :=
  (ClassList.empty.add options.name).extend options.classes

/-- The further classes of a breakpoint. -/
def extrasAt (options : ContainerOptions) (breakpoint : String) : List String :=
  ((options.breakpointClasses.lookup breakpoint).map ClassList.tokens).getD []

/-- The classes of a size: its breakpoint, if it has one, the class of every container with a size,
its orientation, and the further classes of its breakpoint. -/
def classesOf (options : ContainerOptions) (info : ResizeInfo) : List String :=
  (if info.breakpoint.isEmpty then [] else [info.breakpoint])
    ++ [animateClass, info.orientation.name] ++ options.extrasAt info.breakpoint

/-- No breakpoint has a blank in its name. -/
def NamedByWords (options : ContainerOptions) : Prop :=
  ∀ name ∈ options.table.names, ∀ c ∈ name.toList, isBlank c = false

instance : DecidablePred NamedByWords := fun options =>
  decidable_of_iff
    ((options.table.names.all fun name => name.toList.all fun c => !isBlank c) = true)
    (by simp [NamedByWords])

/-! ## One size -/

/-- A size has a breakpoint of the table, or none. -/
theorem breakpoint_infoOf (options : ContainerOptions) (size : Size) :
    (options.infoOf size).breakpoint = "" ∨
      (options.infoOf size).breakpoint ∈ options.table.names := by
  have heq : (options.infoOf size).breakpoint =
      (options.table.resolveOrFirst? size.width).getD "" := rfl
  rw [heq]
  cases hfound : options.table.resolveOrFirst? size.width with
  | none => exact .inl rfl
  | some name => exact .inr (BreakpointTable.mem_of_resolveOrFirst? hfound)

/-- A breakpoint without blanks is one class. -/
theorem wordsOf_breakpoint (h : options.NamedByWords) (size : Size) :
    wordsOf (options.infoOf size).breakpoint =
      if (options.infoOf size).breakpoint.isEmpty then []
      else [(options.infoOf size).breakpoint] := by
  split
  · rename_i hempty
    rw [String.isEmpty_iff.1 hempty]
    rfl
  · rename_i hne
    rcases options.breakpoint_infoOf size with hempty | hmem
    · exact absurd (String.isEmpty_iff.2 hempty) hne
    · exact wordsOf_of_word (by simpa using hne) (h _ hmem)

/-- The extra classes of a breakpoint are among those of all breakpoints. -/
theorem mem_extrasAt {breakpoint : String} (h : token ∈ options.extrasAt breakpoint) :
    token ∈ options.breakpointClasses.flatMap fun entry => entry.2.tokens := by
  unfold extrasAt at h
  cases hfound : options.breakpointClasses.lookup breakpoint with
  | none => simp [hfound] at h
  | some extra =>
    rw [hfound] at h
    exact List.mem_flatMap.2 ⟨_, Fields.mem_of_lookup hfound, h⟩

/-- The classes of a size are removed by the next one, but for the class of every container with a
size. -/
theorem mem_classesOf_infoOf {size : Size} (h : token ∈ options.classesOf (options.infoOf size)) :
    token ∈ options.sizeClasses ∨ token = animateClass := by
  unfold classesOf at h
  unfold sizeClasses
  simp only [List.mem_append, List.mem_cons, List.not_mem_nil, or_false] at h ⊢
  rcases h with (hname | rfl | horientation) | hextra
  · split at hname
    · simp at hname
    · rename_i hne
      rw [List.mem_singleton] at hname
      rcases options.breakpoint_infoOf size with hempty | hmem
      · exact absurd (String.isEmpty_iff.2 hempty) hne
      · exact .inl (.inl (.inl (hname ▸ hmem)))
  · exact .inr rfl
  · left
    right
    rw [horientation]
    cases (options.infoOf size).orientation with
    | landscape => exact .inl rfl
    | portrait => exact .inr rfl
  · exact .inl (.inl (.inr (mem_extrasAt hextra)))

/-- Applying a size removes the classes of all sizes and adds those of this one. -/
theorem classesAt_eq (h : options.NamedByWords) (size : Size) (classes : ClassList) :
    options.classesAt (options.infoOf size) classes =
      (options.sizeClasses.foldl ClassList.remove classes).insertAll
        (options.classesOf (options.infoOf size)) := by
  have hnamed : ∀ list : ClassList, (if (options.infoOf size).breakpoint.isEmpty then list
      else list.add (options.infoOf size).breakpoint) =
        list.insertAll (wordsOf (options.infoOf size).breakpoint) := by
    intro list
    rw [wordsOf_breakpoint h]
    split
    · rfl
    · rename_i hne
      rw [ClassList.add, wordsOf_breakpoint h, if_neg hne]
  have hanimate : wordsOf animateClass = [animateClass] := by decide
  have horientation : wordsOf (options.infoOf size).orientation.name =
      [(options.infoOf size).orientation.name] := by
    cases (options.infoOf size).orientation <;> decide
  unfold classesAt classesOf extrasAt
  dsimp only
  rw [hnamed, ClassList.add, ClassList.add, hanimate, horientation, wordsOf_breakpoint h,
    ClassList.insertAll_append, ClassList.insertAll_append]
  cases options.breakpointClasses.lookup (options.infoOf size).breakpoint with
  | none => rfl
  | some extra => rfl

/-- After a size a container has its own classes and those of the size, and none of other sizes. -/
theorem mem_classesAt (h : options.NamedByWords) (size : Size) :
    token ∈ (options.classesAt (options.infoOf size) classes).tokens ↔
      (token ∈ classes.tokens ∧ token ∉ options.sizeClasses) ∨
        token ∈ options.classesOf (options.infoOf size) := by
  rw [classesAt_eq h, ClassList.mem_insertAll, ClassList.mem_removeAll]

/-- No class comes twice after a size. -/
theorem nodup_classesAt (h : options.NamedByWords) (hclasses : classes.tokens.Nodup)
    (size : Size) : (options.classesAt (options.infoOf size) classes).tokens.Nodup := by
  rw [classesAt_eq h]
  exact ClassList.nodup_insertAll (ClassList.nodup_removeAll hclasses _) _

/-! ## Any number of sizes -/

/-- The classes after one size after the other. -/
def classesAfter (options : ContainerOptions) (sizes : List Size) (classes : ClassList) :
    ClassList :=
  sizes.foldl (fun classes size => options.classesAt (options.infoOf size) classes) classes

/-- The last size decides after all others. -/
theorem classesAfter_concat (options : ContainerOptions) (sizes : List Size) (last : Size)
    (classes : ClassList) :
    options.classesAfter (sizes ++ [last]) classes =
      options.classesAt (options.infoOf last) (options.classesAfter sizes classes) := by
  unfold classesAfter
  rw [List.foldl_append]
  rfl

/-- Sizes that have been applied leave the classes of no size but the last one. -/
theorem mem_classesAfter (h : options.NamedByWords) (sizes : List Size) (last : Size) :
    token ∈ (options.classesAfter (sizes ++ [last]) classes).tokens ↔
      (token ∈ classes.tokens ∧ token ∉ options.sizeClasses) ∨
        token ∈ options.classesOf (options.infoOf last) := by
  induction sizes using List.reverseRecOn generalizing last with
  | nil => exact mem_classesAt h last
  | append_singleton sizes before ih =>
    have hlast : animateClass ∈ options.classesOf (options.infoOf last) := by
      simp [classesOf]
    rw [classesAfter_concat, mem_classesAt h, ih]
    constructor
    · rintro (⟨hkept | hbefore, hnew⟩ | hactive)
      · exact .inl hkept
      · rcases mem_classesOf_infoOf hbefore with hold | rfl
        · exact absurd hold hnew
        · exact .inr hlast
      · exact .inr hactive
    · rintro (hkept | hactive)
      · exact .inl ⟨.inl hkept, hkept.2⟩
      · exact .inr hactive

/-- No class comes twice after any number of sizes. -/
theorem nodup_classesAfter (h : options.NamedByWords) (hclasses : classes.tokens.Nodup)
    (sizes : List Size) : (options.classesAfter sizes classes).tokens.Nodup := by
  induction sizes using List.reverseRecOn with
  | nil => exact hclasses
  | append_singleton sizes last ih =>
    rw [classesAfter_concat]
    exact nodup_classesAt h ih last

/-! ## Order of the further classes -/

/-- The same options with further classes listed in another way. -/
def withExtras (options : ContainerOptions) (extras : List (String × ClassList)) :
    ContainerOptions :=
  { options with breakpointClasses := extras }

/-- It does not matter in which order the further classes are listed. -/
theorem classesAt_withExtras {extras : List (String × ClassList)}
    (h : Fields.Distinct options.breakpointClasses) (hperm : extras.Perm options.breakpointClasses)
    (info : ResizeInfo) (classes : ClassList) :
    (options.withExtras extras).classesAt info classes = options.classesAt info classes := by
  have hdistinct : Fields.Distinct extras := (hperm.map Prod.fst).nodup_iff.2 h
  have hlookup : extras.lookup info.breakpoint =
      options.breakpointClasses.lookup info.breakpoint := by
    apply Option.ext
    intro extra
    rw [Fields.lookup_eq_some_iff hdistinct, Fields.lookup_eq_some_iff h, hperm.mem_iff]
  have hremoved : (options.withExtras extras).sizeClasses.foldl ClassList.remove classes =
      options.sizeClasses.foldl ClassList.remove classes := by
    have hmem : ∀ token, token ∈ (options.withExtras extras).sizeClasses ↔
        token ∈ options.sizeClasses := by
      intro token
      simp [sizeClasses, withExtras, hperm.mem_iff]
    rw [ClassList.removeAll_eq, ClassList.removeAll_eq]
    simp only [hmem]
  unfold classesAt
  dsimp only
  rw [hremoved, ← hlookup]
  rfl

end ContainerOptions

namespace Container

variable {c : Container} {extras : List (String × ClassList)}

/-- The same container with further classes listed in another way. -/
def withExtras (c : Container) (extras : List (String × ClassList)) : Container :=
  { c with options := c.options.withExtras extras }

/-- Sizes mean the same classes where further classes are listed in another way. -/
def Unmoved (options : ContainerOptions) (extras : List (String × ClassList)) : Prop :=
  ∀ info classes,
    (options.withExtras extras).classesAt info classes = options.classesAt info classes

/-- The order of extra classes plays no part in applying a size. -/
theorem apply_withExtras (h : Unmoved c.options extras) (size : Size) :
    (c.withExtras extras).apply size = ((c.apply size).1.withExtras extras, (c.apply size).2) := by
  unfold apply
  by_cases hunmounted : c.unmounted
  · have hsame : (c.withExtras extras).unmounted := hunmounted
    rw [if_pos hunmounted, if_pos hsame]
  · have hsame : ¬ (c.withExtras extras).unmounted := hunmounted
    rw [if_neg hunmounted, if_neg hsame]
    have hclasses : (c.withExtras extras).options.classesAt
        ((c.withExtras extras).options.infoOf size) (c.withExtras extras).classes =
          c.options.classesAt (c.options.infoOf size) c.classes := h _ _
    dsimp only
    rw [hclasses]
    rfl

/-- The order of extra classes plays no part in observing a size. -/
theorem observe_withExtras (h : Unmoved c.options extras) (size : Size) :
    (c.withExtras extras).observe size =
      ((c.observe size).1.withExtras extras, (c.observe size).2) := by
  by_cases hunmounted : c.unmounted
  · simp [observe, withExtras, hunmounted]
  · by_cases htimed : c.timed
    · simp [observe, withExtras, ContainerOptions.withExtras, hunmounted, htimed]
    · have hself : c.observe size = c.apply size := by simp [observe, hunmounted, htimed]
      have hother : (c.withExtras extras).observe size = (c.withExtras extras).apply size := by
        simp [observe, withExtras, hunmounted, htimed]
      rw [hself, hother, apply_withExtras h]

/-- The order of extra classes plays no part in what a timer does. -/
theorem fire_withExtras (h : Unmoved c.options extras) :
    (c.withExtras extras).fire = (c.fire.1.withExtras extras, c.fire.2) := by
  cases hdue : c.due? with
  | none =>
    rw [fire_of_not_due hdue, fire_of_not_due]
    exact hdue
  | some size =>
    have hdue' : (c.withExtras extras).due? = some size := hdue
    rw [fire_of_due hdue, fire_of_due hdue']
    exact apply_withExtras (c := { c with pending := none }) h size

/-- Where further classes are listed in another way, all that happens is the same. -/
theorem perform_withExtras (h : Unmoved c.options extras) (move : ContainerMove) :
    (c.withExtras extras).perform move =
      ((c.perform move).1.withExtras extras, (c.perform move).2) := by
  cases move with
  | fire => exact fire_withExtras h
  | act step =>
    cases step with
    | mount size => exact apply_withExtras h size
    | observe size => exact observe_withExtras h size
    | send sensor size =>
      have hlistens : (c.withExtras extras).listens sensor = c.listens sensor := rfl
      by_cases hheard : c.listens sensor
      · simp only [perform, act, hlistens, hheard, if_true]
        exact observe_withExtras h size
      · simp [perform, act, hlistens, hheard]
    | close sensor =>
      have hlistens : (c.withExtras extras).listens sensor = c.listens sensor := rfl
      by_cases hheard : c.listens sensor
      · simp only [perform, act, hlistens, hheard, if_true]
        rfl
      · simp [perform, act, hlistens, hheard]
    | attach => rfl
    | unmount => rfl
    | sleep duration => rfl

/-- The order of extra classes plays no part in any number of moves. -/
theorem performAll_withExtras (h : Unmoved c.options extras) (moves : List ContainerMove) :
    (c.withExtras extras).performAll moves =
      ((c.performAll moves).1.withExtras extras, (c.performAll moves).2) := by
  induction moves generalizing c with
  | nil => rfl
  | cons move rest ih =>
    obtain ⟨sizes, happlies⟩ := exists_applies_perform c move
    have hnext : Unmoved (c.perform move).1.options extras := happlies.options_eq ▸ h
    rw [performAll, perform_withExtras h, ih hnext]
    rfl

/-- The classes do not depend on the order in which further classes are listed. -/
theorem classes_performAll_withExtras (options : ContainerOptions) (timed : Bool)
    (moves : List ContainerMove) (hdistinct : Fields.Distinct options.breakpointClasses)
    (hperm : extras.Perm options.breakpointClasses) :
    ((start (options.withExtras extras) timed).performAll moves).1.classes =
      ((start options timed).performAll moves).1.classes := by
  have hunmoved : Unmoved (start options timed).options extras :=
    fun info classes => ContainerOptions.classesAt_withExtras hdistinct hperm info classes
  have hrun := performAll_withExtras hunmoved moves
  have hstart : (start options timed).withExtras extras =
      start (options.withExtras extras) timed := rfl
  rw [← hstart, hrun]
  rfl

/-! ## The last size -/

/-- In every run, with timers that go off at any time, a container that has a size has the classes
of this size, and of those that it had before any size the ones that no size could give it. They
occur once each, the classes of an earlier size are only left where they are classes of this one,
and the order in which further classes are listed for the breakpoints does not matter. -/
theorem classes_of_last_size (options : ContainerOptions) (timed : Bool)
    (moves : List ContainerMove) (info : ResizeInfo) (hnames : options.NamedByWords)
    (hinfo : ((start options timed).performAll moves).1.info = some info) :
    ((start options timed).performAll moves).1.classes.tokens.Nodup ∧
      (∀ token, token ∈ ((start options timed).performAll moves).1.classes.tokens ↔
        (token ∈ options.ownClasses.tokens ∧ token ∉ options.sizeClasses) ∨
          token ∈ options.classesOf info) ∧
      (∀ earlier, ∀ token ∈ options.classesOf (options.infoOf earlier),
        token ∈ ((start options timed).performAll moves).1.classes.tokens →
        token ∈ options.classesOf info) ∧
      ∀ extras : List (String × ClassList), Fields.Distinct options.breakpointClasses →
        extras.Perm options.breakpointClasses →
        ((start (options.withExtras extras) timed).performAll moves).1.classes =
          ((start options timed).performAll moves).1.classes := by
  obtain ⟨sizes, happlies⟩ := exists_applies_performAll (start options timed) moves
  have hclasses : ((start options timed).performAll moves).1.classes =
      options.classesAfter sizes options.ownClasses := happlies.classes_eq
  have hown : options.ownClasses.tokens.Nodup :=
    ClassList.nodup_extend (ClassList.nodup_add List.nodup_nil _) _
  have hmem : ∀ token, token ∈ (options.classesAfter sizes options.ownClasses).tokens ↔
      (token ∈ options.ownClasses.tokens ∧ token ∉ options.sizeClasses) ∨
        token ∈ options.classesOf info := by
    intro token
    rw [happlies.info_eq] at hinfo
    rcases List.eq_nil_or_concat sizes with rfl | ⟨before, last, rfl⟩
    · simp at hinfo
    · rw [List.concat_eq_append] at hinfo ⊢
      rw [List.getLast?_concat] at hinfo
      cases hinfo
      exact ContainerOptions.mem_classesAfter hnames before last
  rw [hclasses]
  refine ⟨ContainerOptions.nodup_classesAfter hnames hown sizes, hmem, ?_, ?_⟩
  · intro earlier token hearlier hleft
    rcases (hmem token).1 hleft with ⟨-, hkept⟩ | hlast
    · rcases ContainerOptions.mem_classesOf_infoOf hearlier with hremoved | rfl
      · exact absurd hremoved hkept
      · simp [ContainerOptions.classesOf]
    · exact hlast
  · intro extras hdistinct hperm
    rw [← hclasses]
    exact classes_performAll_withExtras options timed moves hdistinct hperm

/-- Options whose classes overlap: a further class that two breakpoints share, a class of the
container that is named like a breakpoint, and `animate` as a further class. -/
def overlapping : ContainerOptions :=
  { name := "main md"
    table := .standard
    classes := .collect ["portrait", "wide"]
    breakpointClasses :=
      [("xs", .collect ["narrow", "animate"]), ("md", .collect ["wide", "narrow"]),
        ("xl", .collect ["wide"])]
    delay := 0 }

/-- Three sizes, the second one at the end of a wait. -/
def threeSizes : List ContainerMove :=
  [.act (.mount ⟨400, 700⟩), .act (.observe ⟨800, 900⟩), .fire, .act (.mount ⟨1300, 700⟩)]

/-- Nothing of the small sizes is left in the end, also if the further classes are listed the other
way round. -/
theorem classes_overlapping :
    overlapping.NamedByWords ∧ Fields.Distinct overlapping.breakpointClasses ∧
      ((start overlapping true).performAll threeSizes).1.info =
        some ⟨"main md", "xl", .landscape, 1300, 700⟩ ∧
      ((start overlapping true).performAll threeSizes).1.classes.tokens.Nodup ∧
      (∀ token, token ∈ ((start overlapping true).performAll threeSizes).1.classes.tokens ↔
        (token ∈ ["main", "md", "portrait", "wide"] ∧ token ∉ overlapping.sizeClasses) ∨
          token ∈ ["xl", "animate", "landscape", "wide"]) ∧
      ((start (overlapping.withExtras overlapping.breakpointClasses.reverse) true).performAll
          threeSizes).1.classes =
        ((start overlapping true).performAll threeSizes).1.classes := by
  have hnames : overlapping.NamedByWords := by decide
  have hdistinct : Fields.Distinct overlapping.breakpointClasses := by
    unfold Fields.Distinct
    decide
  have hinfo : ((start overlapping true).performAll threeSizes).1.info =
      some ⟨"main md", "xl", .landscape, 1300, 700⟩ := rfl
  obtain ⟨hnodup, hmem, -, horder⟩ := classes_of_last_size overlapping true threeSizes
    ⟨"main md", "xl", .landscape, 1300, 700⟩ hnames hinfo
  exact ⟨hnames, hdistinct, hinfo, hnodup, hmem, horder _ hdistinct (List.reverse_perm _)⟩

end Container

end ViewSchema
