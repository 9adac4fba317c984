import ViewSchema.Proofs.Compile.Section

/-!
# Reading a schema in document order

Which leaves a schema shows, and in which section each of them stands, told without
compiling anything: a list of places is read from the front, and a place is replaced by
the places inside it.  Arrays are replaced by their items, maps by their entries, active
sections by their content after the mutation, unless their component takes it as it is.

Main results:

- Definition `Compiler.Reads`: the marks found at a list of places, in order.
- Theorem `Compiler.Reads.append`: places one after the other give marks one after the other.
- Theorem `Compiler.Reads.unique`: there is one reading at most.
-/

namespace ViewSchema

/-- What is still to be read: a value inside the sections around it, or a section under its
name. -/
inductive Place where
  | value (value : Json) (scope : Scope)
  | named (name : String) (fields : List (String × Json)) (scope : Scope)

/-- What reading finds. -/
inductive Mark where
  /-- An active section, as its mutation leaves it. -/
  | opened (mutated : List (String × Json))
  /-- A leaf that is not falsy, inside the mutated sections around it. -/
  | leaf (value : Json) (scope : Scope)

/-- The place of an entry in a map of sections. -/
def Place.ofEntry (scope : Scope) (entry : String × Json) : Place :=
  .named ((Section.name? (Section.ofEntry entry.1 entry.2)).getD entry.1)
    (Section.ofEntry entry.1 entry.2) scope

namespace Compiler

/-- `Reads c places marks`: reading the places in order finds the marks. -/
inductive Reads (c : Compiler) : List Place → List Mark → Prop
  | done : Reads c [] []
  | falsy {value : Json} {scope : Scope} {rest : List Place} {marks : List Mark} :
      value.isFalsy = true → Reads c rest marks → Reads c (.value value scope :: rest) marks
  | leaf {value : Json} {scope : Scope} {rest : List Place} {marks : List Mark} :
      value.isFalsy = false → value.isArray = false → value.isObject = false →
      Reads c rest marks → Reads c (.value value scope :: rest) (.leaf value scope :: marks)
  | items {items : List Json} {scope : Scope} {rest : List Place} {marks : List Mark} :
      Reads c (items.map (Place.value · scope) ++ rest) marks →
      Reads c (.value (.array items) scope :: rest) marks
  | named {fields : List (String × Json)} {name : String} {scope : Scope} {rest : List Place}
      {marks : List Mark} : Section.name? fields = some name →
      Reads c (.named name fields scope :: rest) marks →
      Reads c (.value (.object fields) scope :: rest) marks
  | entries {fields : List (String × Json)} {scope : Scope} {rest : List Place}
      {marks : List Mark} : Section.name? fields = none →
      Reads c (fields.map (Place.ofEntry scope) ++ rest) marks →
      Reads c (.value (.object fields) scope :: rest) marks
  | inactive {name : String} {fields : List (String × Json)} {scope : Scope}
      {rest : List Place} {marks : List Mark} :
      Section.isInactive (c.mutated name fields) = true → Reads c rest marks →
      Reads c (.named name fields scope :: rest) marks
  | bare {name : String} {fields : List (String × Json)} {scope : Scope} {rest : List Place}
      {marks : List Mark} : Section.isInactive (c.mutated name fields) = false →
      c.compiledContent? (c.mutated name fields) = none → Reads c rest marks →
      Reads c (.named name fields scope :: rest) (.opened (c.mutated name fields) :: marks)
  | content {name : String} {fields : List (String × Json)} {content : Json} {scope : Scope}
      {rest : List Place} {marks : List Mark} :
      Section.isInactive (c.mutated name fields) = false →
      c.compiledContent? (c.mutated name fields) = some content →
      Reads c (.value content (scope.enter name (c.mutated name fields)) :: rest) marks →
      Reads c (.named name fields scope :: rest) (.opened (c.mutated name fields) :: marks)

namespace Reads

variable {c : Compiler} {xs ys places : List Place} {ms ns marks other : List Mark}

/-- Places one after the other give marks one after the other. -/
theorem append (h : Reads c xs ms) (h' : Reads c ys ns) : Reads c (xs ++ ys) (ms ++ ns) := by
  induction h with
  | done => exact h'
  | falsy hfalsy _ ih => exact .falsy hfalsy ih
  | leaf hfalsy harray hobject _ ih => exact .leaf hfalsy harray hobject ih
  | items _ ih =>
    rw [List.append_assoc] at ih
    exact .items ih
  | named hname _ ih => exact .named hname ih
  | entries hname _ ih =>
    rw [List.append_assoc] at ih
    exact .entries hname ih
  | inactive hactive _ ih => exact .inactive hactive ih
  | bare hactive hcontent _ ih => exact .bare hactive hcontent ih
  | content hactive hcontent _ ih => exact .content hactive hcontent ih

/-- Nothing stands at no place. -/
theorem eq_nil (h : Reads c [] marks) : marks = [] := by
  cases h
  rfl

/-- A list of places has one reading at most. -/
theorem unique (h : Reads c places marks) (h' : Reads c places other) : marks = other := by
  induction h generalizing other with
  | done => exact h'.eq_nil.symm
  | falsy hfalsy _ ih =>
    cases h' with
    | falsy _ hrest => exact ih hrest
    | leaf hleaf => simp [hfalsy] at hleaf
    | items | named | entries => simp [Json.isFalsy] at hfalsy
  | leaf hleaf harray hobject _ ih =>
    cases h' with
    | falsy hfalsy => simp [hfalsy] at hleaf
    | leaf _ _ _ hrest => rw [ih hrest]
    | items => simp [Json.isArray] at harray
    | named | entries => simp [Json.isObject] at hobject
  | items _ ih =>
    cases h' with
    | falsy hfalsy => simp [Json.isFalsy] at hfalsy
    | leaf _ harray => simp [Json.isArray] at harray
    | items hrest => exact ih hrest
  | named hname _ ih =>
    cases h' with
    | falsy hfalsy => simp [Json.isFalsy] at hfalsy
    | leaf _ _ hobject => simp [Json.isObject] at hobject
    | named hname' hrest =>
      cases hname.symm.trans hname'
      exact ih hrest
    | entries hname' => simp [hname] at hname'
  | entries hname _ ih =>
    cases h' with
    | falsy hfalsy => simp [Json.isFalsy] at hfalsy
    | leaf _ _ hobject => simp [Json.isObject] at hobject
    | named hname' => simp [hname] at hname'
    | entries _ hrest => exact ih hrest
  | inactive hactive _ ih =>
    cases h' with
    | inactive _ hrest => exact ih hrest
    | bare hactive' | content hactive' => simp [hactive] at hactive'
  | bare hactive hcontent _ ih =>
    cases h' with
    | inactive hactive' => simp [hactive] at hactive'
    | bare _ _ hrest => rw [ih hrest]
    | content _ hcontent' => simp [hcontent] at hcontent'
  | content hactive hcontent _ ih =>
    cases h' with
    | inactive hactive' => simp [hactive] at hactive'
    | bare _ hcontent' => simp [hcontent] at hcontent'
    | content _ hcontent' hrest =>
      cases hcontent.symm.trans hcontent'
      rw [ih hrest]

end Reads

end Compiler

end ViewSchema
