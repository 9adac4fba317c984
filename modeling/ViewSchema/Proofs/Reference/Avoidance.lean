import ViewSchema.Proofs.Reference.Agreement

/-!
# References that avoid a member

Every reference begins at one member of its context.  A value avoids a member when none of
its texts is a reference that begins there.  Resolving follows references through the whole
context, so a value stays clear of a member only if everything else in the context avoids it
too; then two contexts that differ in this member alone resolve the value alike.

Main results:

- Definitions `Reference.root?` and `Json.Avoids`: where a text leads, and that no text of a
  value leads to a member.
- Theorem `Json.Avoids.steps?`: what stands inside an avoiding value avoids as well.
- Theorem `Reference.resolve_eq_of_avoids`: resolving an avoiding value does not depend on
  the member that is avoided.
-/

namespace ViewSchema

/-! ## Where a reference begins -/

namespace Reference

/-- The member of the context at which a reference begins. -/
def root? (text : String) : Option String :=
  (pointer? text).map fun pointer =>
    String.ofList (Json.unescapeTilde (Json.unescapeSlash
      ((splitAtEach (· == '/') (pointer.toList.drop 1)).headD [])))

/-- Looking a reference up takes the member at which it begins and goes on from there. -/
theorem lookup?_of_root? {text root : String} (h : root? text = some root) :
    ∃ steps, ∀ fields, lookup? (.object fields) text =
      (fields.lookup root).bind fun member => member.steps? steps := by
  obtain ⟨pointer, hpointer, hroot⟩ := Option.map_eq_some_iff.1 h
  obtain ⟨path, hpath⟩ := toList_of_pointer? hpointer
  rcases hsplit : splitAtEach (· == '/') path with _ | ⟨first, others⟩
  · exact absurd hsplit (splitAtEach_ne_nil _ _)
  · refine ⟨others.map fun step => Json.unescapeTilde (Json.unescapeSlash step), ?_⟩
    intro fields
    simp only [hpath, List.drop_one, List.tail_cons, hsplit, List.headD_cons] at hroot
    simp [lookup?, hpointer, Json.pointer?, hpath, hsplit, Json.steps?, Json.step?, hroot]

/-- What refers to nothing is not found. -/
theorem lookup?_of_root?_eq_none {text : String} (h : root? text = none) (context : Json) :
    lookup? context text = none := by
  have hpointer : pointer? text = none := by simpa [root?] using h
  simp [lookup?, hpointer]

end Reference

/-! ## Avoiding a member -/

namespace Json

mutual

/-- No text in the value is a reference that begins at the member. -/
def Avoids (member : String) : Json → Prop
  | string s => Reference.root? s ≠ some member
  | array items => AvoidsItems member items
  | object fields => AvoidsFields member fields
  | _ => True

def AvoidsItems (member : String) : List Json → Prop
  | [] => True
  | x :: xs => Avoids member x ∧ AvoidsItems member xs

def AvoidsFields (member : String) : List (String × Json) → Prop
  | [] => True
  | (_, x) :: xs => Avoids member x ∧ AvoidsFields member xs

end

mutual

/-- Whether a value avoids a member can be read off its texts. -/
def decideAvoids (member : String) : (value : Json) → Decidable (value.Avoids member)
  | string s => inferInstanceAs (Decidable (Reference.root? s ≠ some member))
  | array items => decideAvoidsItems member items
  | object fields => decideAvoidsFields member fields
  | null | bool _ | number _ => isTrue trivial

def decideAvoidsItems (member : String) : (items : List Json) →
    Decidable (AvoidsItems member items)
  | [] => isTrue trivial
  | x :: xs =>
    have := decideAvoids member x
    have := decideAvoidsItems member xs
    inferInstanceAs (Decidable (Avoids member x ∧ AvoidsItems member xs))

def decideAvoidsFields (member : String) : (fields : List (String × Json)) →
    Decidable (AvoidsFields member fields)
  | [] => isTrue trivial
  | (_, x) :: xs =>
    have := decideAvoids member x
    have := decideAvoidsFields member xs
    inferInstanceAs (Decidable (Avoids member x ∧ AvoidsFields member xs))

end

instance (member : String) (value : Json) : Decidable (value.Avoids member) :=
  decideAvoids member value

variable {member : String}

theorem avoidsItems_iff {items : List Json} :
    AvoidsItems member items ↔ ∀ x ∈ items, x.Avoids member := by
  induction items with
  | nil => simp [AvoidsItems]
  | cons x xs ih => simp [AvoidsItems, ih]

theorem avoidsFields_iff {fields : List (String × Json)} :
    AvoidsFields member fields ↔ ∀ f ∈ fields, f.2.Avoids member := by
  induction fields with
  | nil => simp [AvoidsFields]
  | cons f fs ih => simp [AvoidsFields, ih]

theorem avoids_array_iff {items : List Json} :
    (array items).Avoids member ↔ ∀ x ∈ items, x.Avoids member := by
  rw [Avoids, avoidsItems_iff]

theorem avoids_object_iff {fields : List (String × Json)} :
    (object fields).Avoids member ↔ ∀ f ∈ fields, f.2.Avoids member := by
  rw [Avoids, avoidsFields_iff]

mutual

/-- A value avoids a member when each of its texts does. -/
theorem avoids_iff_texts : {value : Json} →
    (value.Avoids member ↔ ∀ text ∈ value.texts, Reference.root? text ≠ some member)
  | string s => by simp [Avoids, texts]
  | array items => by
    rw [Avoids, texts]
    exact avoidsItems_iff_texts
  | object fields => by
    rw [Avoids, texts]
    exact avoidsFields_iff_texts
  | null | bool _ | number _ => by simp [Avoids, texts]

theorem avoidsItems_iff_texts : {items : List Json} →
    (AvoidsItems member items ↔
      ∀ text ∈ textsOfItems items, Reference.root? text ≠ some member)
  | [] => by simp [AvoidsItems, textsOfItems]
  | x :: xs => by
    rw [AvoidsItems, textsOfItems, List.forall_mem_append, avoids_iff_texts,
      avoidsItems_iff_texts]

theorem avoidsFields_iff_texts : {fields : List (String × Json)} →
    (AvoidsFields member fields ↔
      ∀ text ∈ textsOfFields fields, Reference.root? text ≠ some member)
  | [] => by simp [AvoidsFields, textsOfFields]
  | (_, x) :: xs => by
    rw [AvoidsFields, textsOfFields, List.forall_mem_append, avoids_iff_texts,
      avoidsFields_iff_texts]

end

namespace Avoids

/-- One step into an avoiding value leads to an avoiding one. -/
theorem step? {value inner : Json} (h : value.Avoids member) {step : List Char}
    (hstep : value.step? step = some inner) : inner.Avoids member := by
  cases value with
  | object fields => exact avoids_object_iff.1 h _ (Fields.mem_of_lookup hstep)
  | array items =>
    obtain ⟨i, -, hi⟩ := Option.bind_eq_some_iff.1 hstep
    exact avoids_array_iff.1 h _ (List.mem_of_getElem? hi)
  | _ => cases hstep

/-- So do several steps. -/
theorem steps? {value inner : Json} (h : value.Avoids member) {steps : List (List Char)}
    (hsteps : value.steps? steps = some inner) : inner.Avoids member := by
  induction steps generalizing value with
  | nil =>
    cases hsteps
    exact h
  | cons step rest ih =>
    obtain ⟨next, hnext, hrest⟩ := Option.bind_eq_some_iff.1 hsteps
    exact ih (h.step? hnext) hrest

end Avoids

end Json

/-! ## Resolving -/

namespace Reference

variable {member : String} {fields others : List (String × Json)}

/-- Two contexts that agree but for one member, which nothing else in them refers to. -/
structure AgreeBut (member : String) (fields others : List (String × Json)) : Prop where
  lookup_eq : ∀ name, name ≠ member → fields.lookup name = others.lookup name
  avoids : ∀ name value, name ≠ member → fields.lookup name = some value → value.Avoids member

/-- A reference that begins elsewhere leads to the same value in both contexts, and that
value avoids the member again. -/
theorem AgreeBut.lookup? (h : AgreeBut member fields others) {text : String}
    (htext : root? text ≠ some member) :
    lookup? (.object fields) text = lookup? (.object others) text ∧
      ∀ found, lookup? (.object fields) text = some found → found.Avoids member := by
  cases hroot : root? text with
  | none =>
    simp [lookup?_of_root?_eq_none hroot]
  | some root =>
    have hne : root ≠ member := fun heq => htext (heq ▸ hroot)
    obtain ⟨steps, hsteps⟩ := lookup?_of_root? hroot
    rw [hsteps fields, hsteps others, h.lookup_eq root hne]
    refine ⟨rfl, ?_⟩
    intro found hfound
    obtain ⟨value, hvalue, hrest⟩ := Option.bind_eq_some_iff.1 hfound
    exact (h.avoids root value hne (h.lookup_eq root hne ▸ hvalue)).steps? hrest

/-- So the contexts agree on references that begin elsewhere. -/
theorem AgreeBut.agreeOn (h : AgreeBut member fields others) :
    AgreeOn (fun text => root? text ≠ some member) (.object fields) (.object others) where
  lookup_eq _ htext := (h.lookup? htext).1
  closed _ found htext hlookup := Json.avoids_iff_texts.1 ((h.lookup? htext).2 found hlookup)

/-- Resolving an avoiding value does not depend on the member that is avoided. -/
theorem resolve_eq_of_avoids (h : AgreeBut member fields others) {value : Json}
    (hvalue : value.Avoids member) :
    resolve (.object fields) value = resolve (.object others) value :=
  h.agreeOn.resolve_eq (Json.avoids_iff_texts.1 hvalue)

end Reference

end ViewSchema
