import ViewSchema.Proofs.Json.Fields
import ViewSchema.Reference

/-!
# Contexts that agree

Resolving a value reads its texts, the texts of what they lead to, and so on.  Two contexts in
which each of these texts leads to the same value resolve the value alike, whatever else they
hold.

Main results:

- Definition `Json.texts`: the texts in a value, at any depth.
- Definition `Reference.Reads`: the texts that resolving a value may read.
- Theorem `Reference.AgreeOn.resolve_eq`: contexts that agree on a closed set of texts resolve
  values of these texts alike.
- Theorem `Reference.resolve_eq_of_reads`: agreement on what is read suffices.
-/

namespace ViewSchema

/-! ## Steps -/

namespace Reference

/-- The steps that a reference takes from its context. -/
def steps? (text : String) : Option (List (List Char)) :=
  (pointer? text).map fun pointer =>
    (splitAtEach (· == '/') (pointer.toList.drop 1)).map fun step =>
      Json.unescapeTilde (Json.unescapeSlash step)

/-- A pointer that a text refers to begins with a slash. -/
theorem toList_of_pointer? {text pointer : String} (h : pointer? text = some pointer) :
    ∃ path, pointer.toList = '/' :: path := by
  unfold pointer? at h
  split at h
  · split at h
    · cases h
    · rename_i c rest _ _
      cases h
      exact ⟨(c :: rest).dropWhile (· == '/'), by simp⟩
  · cases h

/-- Looking a reference up takes its steps. -/
theorem lookup?_eq_steps? (context : Json) (text : String) :
    lookup? context text = (steps? text).bind context.steps? := by
  unfold lookup? steps?
  cases hpointer : pointer? text with
  | none => rfl
  | some pointer =>
    obtain ⟨path, hpath⟩ := toList_of_pointer? hpointer
    simp [Json.pointer?, hpath]

/-- There is at least one of them. -/
theorem steps?_ne_nil (text : String) : steps? text ≠ some [] := by
  intro h
  obtain ⟨pointer, -, hsteps⟩ := Option.map_eq_some_iff.1 h
  exact splitAtEach_ne_nil _ _ (List.map_eq_nil_iff.1 hsteps)

end Reference

/-! ## Texts -/

namespace Json

mutual

/-- The texts in a value, at any depth; names of members do not count. -/
def texts : Json → List String
  | string s => [s]
  | array items => textsOfItems items
  | object fields => textsOfFields fields
  | _ => []

def textsOfItems : List Json → List String
  | [] => []
  | x :: xs => texts x ++ textsOfItems xs

def textsOfFields : List (String × Json) → List String
  | [] => []
  | (_, x) :: xs => texts x ++ textsOfFields xs

end

variable {text : String}

/-- The texts of an array are those of its items. -/
theorem mem_texts_array {items : List Json} :
    text ∈ (array items).texts ↔ ∃ item ∈ items, text ∈ item.texts := by
  rw [texts]
  induction items with
  | nil => simp [textsOfItems]
  | cons x xs ih => simp [textsOfItems, ih]

/-- The texts of an object are those of its members. -/
theorem mem_texts_object {fields : List (String × Json)} :
    text ∈ (object fields).texts ↔ ∃ field ∈ fields, text ∈ field.2.texts := by
  rw [texts]
  induction fields with
  | nil => simp [textsOfFields]
  | cons x xs ih => simp [textsOfFields, ih]

/-- An object laid over another one brings no other texts. -/
theorem mem_texts_overlay {target fields : List (String × Json)}
    (h : text ∈ (object (Reference.overlay target fields)).texts) :
    text ∈ (object target).texts ∨ text ∈ (object fields).texts := by
  obtain ⟨field, hfield, htext⟩ := mem_texts_object.1 h
  rcases Fields.mem_setAll hfield with hold | ⟨other, hother, heq⟩
  · exact .inl (mem_texts_object.2 ⟨field, hold, htext⟩)
  · exact .inr (mem_texts_object.2 ⟨other, (List.mem_filter.1 hother).1, heq ▸ htext⟩)

end Json

/-! ## Resolving -/

namespace Reference

/-- Two contexts in which texts of some kind lead to the same values, in which there are only
texts of that kind again. -/
structure AgreeOn (p : String → Prop) (context other : Json) : Prop where
  lookup_eq : ∀ text, p text → lookup? context text = lookup? other text
  closed : ∀ text found, p text → lookup? context text = some found →
    ∀ inner ∈ found.texts, p inner

namespace AgreeOn

variable {p : String → Prop} {context other : Json} {follow follow' : Json → Json}

/-- The object that an object of such texts refers to is the same in both contexts, and all of
its texts are of that kind. -/
theorem target?_eq (h : AgreeOn p context other) {fields : List (String × Json)}
    (hfields : ∀ text ∈ (Json.object fields).texts, p text) :
    target? context fields = target? other fields ∧
      ∀ target, target? context fields = some target →
        ∀ text ∈ (Json.object target).texts, p text := by
  unfold target?
  cases href : Fields.string? fields "ref" with
  | none => exact ⟨rfl, by rintro _ ⟨⟩⟩
  | some text =>
    obtain ⟨value, hvalue, htext⟩ := Option.bind_eq_some_iff.1 href
    have hp : p text := by
      refine hfields text (Json.mem_texts_object.2 ⟨_, Fields.mem_of_lookup hvalue, ?_⟩)
      cases value with
      | string s =>
        cases htext
        exact List.mem_singleton_self _
      | _ => cases htext
    simp only [Option.bind_some, ← h.lookup_eq text hp]
    refine ⟨trivial, fun target htarget => ?_⟩
    obtain ⟨found, hlookup, hobject⟩ := Option.bind_eq_some_iff.1 htarget
    cases found with
    | object inner =>
      cases hobject
      exact h.closed text _ hp hlookup
    | _ => cases hobject

mutual

/-- Substituting is the same in both contexts when following what is found is. -/
theorem substitute_eq (h : AgreeOn p context other)
    (hfollow : ∀ found : Json, (∀ text ∈ found.texts, p text) → follow found = follow' found) :
    ∀ {value : Json}, (∀ text ∈ value.texts, p text) →
      substitute context follow value = substitute other follow' value
  | .string s, hvalue => by
    have hp : p s := hvalue s (List.mem_singleton_self _)
    rw [substitute, substitute, ← h.lookup_eq s hp]
    cases hlookup : lookup? context s with
    | none => rfl
    | some found => exact hfollow found (h.closed s found hp hlookup)
  | .array items, hvalue =>
    congrArg Json.array (substituteItems_eq h hfollow fun item hitem text htext =>
      hvalue text (Json.mem_texts_array.2 ⟨item, hitem, htext⟩))
  | .object fields, hvalue => by
    obtain ⟨hsame, htarget⟩ := h.target?_eq hvalue
    rw [substitute, substitute, ← hsame]
    cases hfind : target? context fields with
    | none =>
      exact congrArg Json.object (substituteFields_eq h hfollow fun field hfield text htext =>
        hvalue text (Json.mem_texts_object.2 ⟨field, hfield, htext⟩))
    | some target =>
      refine hfollow _ fun text htext => ?_
      rcases Json.mem_texts_overlay htext with hold | hown
      · exact htarget target hfind text hold
      · exact hvalue text hown
  | .null, _ | .bool _, _ | .number _, _ => by simp only [substitute]

theorem substituteItems_eq (h : AgreeOn p context other)
    (hfollow : ∀ found : Json, (∀ text ∈ found.texts, p text) → follow found = follow' found) :
    ∀ {items : List Json}, (∀ item ∈ items, ∀ text ∈ item.texts, p text) →
      substituteItems context follow items = substituteItems other follow' items
  | [], _ => rfl
  | x :: xs, hitems => by
    have hfirst := substitute_eq h hfollow (hitems x List.mem_cons_self)
    have hrest := substituteItems_eq h hfollow fun y hy => hitems y (List.mem_cons_of_mem _ hy)
    rw [substituteItems, substituteItems, hfirst, hrest]

theorem substituteFields_eq (h : AgreeOn p context other)
    (hfollow : ∀ found : Json, (∀ text ∈ found.texts, p text) → follow found = follow' found) :
    ∀ {fields : List (String × Json)}, (∀ field ∈ fields, ∀ text ∈ field.2.texts, p text) →
      substituteFields context follow fields = substituteFields other follow' fields
  | [], _ => rfl
  | (name, x) :: xs, hfields => by
    have hfirst := substitute_eq h hfollow (hfields (name, x) List.mem_cons_self)
    have hrest := substituteFields_eq h hfollow fun f hf =>
      hfields f (List.mem_cons_of_mem _ hf)
    rw [substituteFields, substituteFields, hfirst, hrest]

end

/-- Chains of any length lead to the same. -/
theorem resolveWithin_eq (h : AgreeOn p context other) (hops : Nat) {value : Json}
    (hvalue : ∀ text ∈ value.texts, p text) :
    resolveWithin context hops value = resolveWithin other hops value := by
  induction hops generalizing value with
  | zero => rfl
  | succ hops ih => exact h.substitute_eq (fun found hfound => ih hfound) hvalue

/-- Values of such texts are resolved alike. -/
theorem resolve_eq (h : AgreeOn p context other) {value : Json}
    (hvalue : ∀ text ∈ value.texts, p text) : resolve context value = resolve other value :=
  h.resolveWithin_eq _ hvalue

end AgreeOn

/-! ## What is read -/

/-- `Reads context value text`: resolving the value in the context may read the text, because it
stands in the value or in something that a text read before leads to. -/
inductive Reads (context value : Json) : String → Prop
  | own {text : String} : text ∈ value.texts → Reads context value text
  | found {text inner : String} {found : Json} : Reads context value text →
      lookup? context text = some found → inner ∈ found.texts → Reads context value inner

/-- A list of texts that has those of the value, and those of everything they lead to, has all
that is read. -/
theorem Reads.mem {context value : Json} {text : String} (h : Reads context value text)
    {texts : List String} (hvalue : ∀ own ∈ value.texts, own ∈ texts)
    (hfound : ∀ read ∈ texts, ∀ inner ∈ ((lookup? context read).map Json.texts).getD [],
      inner ∈ texts) : text ∈ texts := by
  induction h with
  | own hown => exact hvalue _ hown
  | found _ hlookup hinner ih =>
    refine hfound _ ih _ ?_
    rw [hlookup]
    exact hinner

/-- Contexts in which everything that is read leads to the same resolve a value alike. -/
theorem resolve_eq_of_reads {context other value : Json}
    (h : ∀ text, Reads context value text → lookup? context text = lookup? other text) :
    resolve context value = resolve other value :=
  have hagree : AgreeOn (Reads context value) context other :=
    ⟨h, fun _ _ hread hlookup _ hinner => .found hread hlookup hinner⟩
  hagree.resolve_eq fun _ hown => .own hown

end Reference

end ViewSchema
