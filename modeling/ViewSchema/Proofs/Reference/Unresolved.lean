import Mathlib.Dynamics.PeriodicPts.Lemmas
import ViewSchema.Proofs.Json.Mapping
import ViewSchema.Proofs.Json.Regular
import ViewSchema.Proofs.Reference.Substitution

/-!
# References that never resolve

A text may lead to a text that is a reference again, and so on round a circle.  Resolving gives up
after a number of hops and leaves what it has reached by then.  That is the text it began with
exactly when the circle has been gone round a whole number of times.

An object that refers to another one is replaced on the way to a place inside it, which takes a hop
as well, so that fewer of them are left for the text at that place.

Main results:

- Definition `Reference.cycleLength`: after how many hops a text leads back to itself.
- Definition `Reference.Arrives`: what resolving comes to at a place, and the hops left there.
- Theorem `Reference.resolveWithin_eq_string_iff`: the reference that is left is the last one
  reached.
- Theorem `Reference.exists_arrives`: resolving comes to every place that is not given up.
- Theorem `Reference.resolve_eq_self_iff_cycleLength_dvd`: which references are left as written.
-/

namespace ViewSchema

/-! ## Regular values inside regular values -/

namespace Json.Regular

variable {value inner : Json}

/-- One step into a regular value leads to a regular one. -/
theorem step? (h : value.Regular) {step : List Char} (hstep : value.step? step = some inner) :
    inner.Regular := by
  cases value with
  | object fields => exact h.lookup hstep
  | array items =>
    obtain ⟨i, -, hi⟩ := Option.bind_eq_some_iff.1 hstep
    exact regular_array_iff.1 h _ (List.mem_of_getElem? hi)
  | _ => cases hstep

/-- So do several steps. -/
theorem steps? (h : value.Regular) {path : List (List Char)}
    (hpath : value.steps? path = some inner) : inner.Regular := by
  induction path generalizing value with
  | nil =>
    cases hpath
    exact h
  | cons step rest ih =>
    obtain ⟨next, hnext, hrest⟩ := Option.bind_eq_some_iff.1 hpath
    exact ih (h.step? hnext) hrest

end Json.Regular

namespace Reference

variable {context value inner : Json} {text reached : String} {hops left : Nat}
  {path : List (List Char)} {fields target : List (String × Json)}

/-- An object that is referred to has each name once. -/
theorem distinct_of_target? (h : context.Regular) (htarget : target? context fields = some target) :
    Fields.Distinct target := by
  obtain ⟨found, hfound, hobject⟩ := Option.bind_eq_some_iff.1 htarget
  obtain ⟨reference, -, hlookup⟩ := Option.bind_eq_some_iff.1 hfound
  rw [lookup?_eq_steps?] at hlookup
  obtain ⟨steps, -, hsteps⟩ := Option.bind_eq_some_iff.1 hlookup
  cases found with
  | object inner =>
    cases hobject
    exact (h.steps? hsteps).distinct
  | _ => cases hobject

/-- An object that replaces another one has the fields of that one, but for its reference. -/
theorem lookup_overlay (h : Fields.Distinct fields) {name : String} (hname : name ≠ "ref") :
    (overlay target fields).lookup name = (fields.lookup name).or (target.lookup name) := by
  have hothers : Fields.Distinct (fields.filter fun field => field.1 != "ref") :=
    h.sublist (List.filter_sublist.map Prod.fst)
  rw [overlay, Fields.lookup_setAll hothers, Fields.lookup_filter fields (· != "ref")]
  simp [hname]

/-! ## Hops from text to text -/

/-- The text that a text leads to, if it leads to one. -/
def hop? (context : Json) (text : String) : Option String :=
  (lookup? context text).bind Json.string?

/-- One hop further from the text that has been reached, if there is one. -/
def hopOn (context : Json) (reached : Option String) : Option String :=
  reached.bind (hop? context)

/-- After how many hops, each from text to text, a text leads back to itself for the first time;
zero if it never does. -/
noncomputable def cycleLength (context : Json) (text : String) : Nat :=
  Function.minimalPeriod (hopOn context) (some text)

@[simp] theorem hopOn_some (context : Json) (text : String) :
    hopOn context (some text) = hop? context text := rfl

/-- Where no text is reached, none is reached later. -/
@[simp] theorem iterate_hopOn_none (context : Json) (hops : Nat) :
    (hopOn context)^[hops] none = none :=
  Function.iterate_fixed rfl hops

/-- What is not a text does not become one. -/
theorem string?_resolveWithin (h : value.string? = none) :
    (resolveWithin context hops value).string? = none := by
  induction hops generalizing value with
  | zero => exact h
  | succ hops ih =>
    cases value with
    | string text => cases h
    | object fields =>
      rw [resolveWithin, substitute]
      cases target? context fields with
      | none => rfl
      | some target => exact ih rfl
    | _ => rfl

/-- The text that the hops lead to is what is left. -/
theorem resolveWithin_of_iterate (h : (hopOn context)^[hops] (some text) = some reached) :
    resolveWithin context hops (.string text) = .string reached := by
  induction hops generalizing text with
  | zero =>
    cases h
    rfl
  | succ hops ih =>
    rw [Function.iterate_succ_apply, hopOn_some, hop?] at h
    cases hlookup : lookup? context text with
    | none => simp [hlookup] at h
    | some found =>
      cases found with
      | string next =>
        rw [resolveWithin, substitute, hlookup]
        exact ih (by simpa [hlookup, Json.string?] using h)
      | _ => simp [hlookup, Json.string?] at h

/-- A reference that leads somewhere is left exactly where the hops run out. -/
theorem resolveWithin_eq_string_iff (hreached : lookup? context reached ≠ none) :
    resolveWithin context hops (.string text) = .string reached ↔
      (hopOn context)^[hops] (some text) = some reached := by
  refine ⟨fun h => ?_, resolveWithin_of_iterate⟩
  induction hops generalizing text with
  | zero =>
    cases h
    rfl
  | succ hops ih =>
    rw [resolveWithin, substitute] at h
    rw [Function.iterate_succ_apply, hopOn_some, hop?]
    cases hlookup : lookup? context text with
    | none =>
      -- A text that leads nowhere stays, but the text that is left leads somewhere.
      rw [hlookup] at h
      cases h
      exact absurd hlookup hreached
    | some found =>
      have hfollow : resolveWithin context hops found = .string reached := by
        simpa only [hlookup] using h
      cases hfound : found.string? with
      | none =>
        have hkept : (resolveWithin context hops found).string? = none :=
          string?_resolveWithin hfound
        rw [hfollow] at hkept
        cases hkept
      | some next =>
        cases found with
        | string other =>
          cases hfound
          exact ih hfollow
        | _ => cases hfound

/-! ## Arriving at a place -/

/-- `Arrives context hops value path left inner`: resolving the value with some hops to spend comes
to the inner value at a place, with some of them left.  An object that refers to another one takes
a hop and goes on as the object that replaces it, unless there are none left. -/
inductive Arrives (context : Json) : Nat → Json → List (List Char) → Nat → Json → Prop
  | here (hops : Nat) (value : Json) : Arrives context hops value [] hops value
  | inside {hops left : Nat} {value next inner : Json} {step : List Char}
      {path : List (List Char)} :
      hops = 0 ∨ value.object?.bind (target? context) = none →
      value.step? step = some next → Arrives context hops next path left inner →
      Arrives context hops value (step :: path) left inner
  | replaced {hops left : Nat} {fields target : List (String × Json)} {inner : Json}
      {path : List (List Char)} : target? context fields = some target →
      Arrives context hops (.object (overlay target fields)) path left inner →
      Arrives context (hops + 1) (.object fields) path left inner

/-- A step into a value that is not replaced as a whole leads to the resolved inner value. -/
theorem step?_resolveWithin {step : List Char}
    (hplain : hops = 0 ∨ value.object?.bind (target? context) = none)
    (hstep : value.step? step = some inner) :
    (resolveWithin context hops value).step? step = some (resolveWithin context hops inner) := by
  cases hops with
  | zero => exact hstep
  | succ hops =>
    cases value with
    | array items =>
      obtain ⟨i, hindex, hitem⟩ := Option.bind_eq_some_iff.1 hstep
      simp only [resolveWithin, substitute, substituteItems_eq_map, Json.step?, hindex,
        Option.bind_some, List.getElem?_map, hitem, Option.map_some]
    | object fields =>
      have hnone : target? context fields = none := hplain.resolve_left (Nat.succ_ne_zero hops)
      have hlookup : fields.lookup (String.ofList step) = some inner := hstep
      have hfields := Fields.lookup_mapValues (f := substitute context (resolveWithin context hops))
        fields (String.ofList step)
      rw [hlookup, Option.map_some] at hfields
      rw [resolveWithin, substitute, hnone, substituteFields_eq_map]
      exact hfields
    | _ => cases hstep

/-- At the place, the resolved value has what the rest of the hops make of the inner value. -/
theorem Arrives.steps?_resolveWithin (h : Arrives context hops value path left inner) :
    (resolveWithin context hops value).steps? path = some (resolveWithin context left inner) := by
  induction h with
  | here => rfl
  | inside hplain hstep _ ih =>
    rw [Json.steps?, step?_resolveWithin hplain hstep]
    exact ih
  | replaced htarget _ ih =>
    rw [resolveWithin, substitute, htarget]
    exact ih

/-- No hop comes back. -/
theorem Arrives.le (h : Arrives context hops value path left inner) : left ≤ hops := by
  induction h with
  | here => exact Nat.le_refl _
  | inside _ _ _ ih => exact ih
  | replaced _ _ ih => exact Nat.le_succ_of_le ih

/-- There is one text that resolving comes to at a place, and one number of hops left there. -/
theorem Arrives.unique {left' : Nat} {text' : String}
    (h : Arrives context hops value path left (.string text))
    (h' : Arrives context hops value path left' (.string text')) : left = left' ∧ text = text' := by
  generalize hinner : Json.string text = inner at h
  induction h with
  | here =>
    subst hinner
    cases h'
    exact ⟨rfl, rfl⟩
  | inside hplain hstep _ ih =>
    cases h' with
    | inside _ hstep' hrest =>
      cases hstep.symm.trans hstep'
      exact ih hrest hinner
    | replaced htarget _ =>
      rcases hplain with hnone | hnone
      · cases hnone
      · rw [Json.object?, Option.bind_some, htarget] at hnone
        cases hnone
  | replaced htarget _ ih =>
    cases h' with
    | inside hplain _ _ =>
      rcases hplain with hnone | hnone
      · cases hnone
      · rw [Json.object?, Option.bind_some, htarget] at hnone
        cases hnone
    | replaced htarget' hrest =>
      cases htarget.symm.trans htarget'
      exact ih hrest hinner

/-- Along a path, no object that is entered by such a name refers to another one. -/
def PlainAlong (context : Json) (entered : String → Prop) : Json → List (List Char) → Prop
  | _, [] => True
  | value, step :: rest =>
    (entered (String.ofList step) → value.object?.bind (target? context) = none) ∧
      match value.step? step with
      | some next => PlainAlong context entered next rest
      | none => True

/-- Going along the path decides it. -/
def decidePlainAlong (context : Json) (entered : String → Prop) [DecidablePred entered] :
    (value : Json) → (path : List (List Char)) → Decidable (PlainAlong context entered value path)
  | _, [] => isTrue trivial
  | value, step :: rest =>
    have : Decidable (match value.step? step with
        | some next => PlainAlong context entered next rest
        | none => True) :=
      match value.step? step with
      | some next => decidePlainAlong context entered next rest
      | none => isTrue trivial
    inferInstanceAs (Decidable (_ ∧ _))

instance (entered : String → Prop) [DecidablePred entered] :
    Decidable (PlainAlong context entered value path) :=
  decidePlainAlong context entered value path

/-- What stands further along such a path is no different. -/
theorem PlainAlong.next {entered : String → Prop} {step : List Char} {next : Json}
    (h : PlainAlong context entered value (step :: path)) (hstep : value.step? step = some next) :
    PlainAlong context entered next path := by
  have hnext := h.2
  rwa [hstep] at hnext

/-- Where no object around a place refers to another one, all hops are left there. -/
theorem arrives_of_plainAlong (hpath : value.steps? path = some inner)
    (hplain : PlainAlong context (fun _ => True) value path) :
    Arrives context hops value path hops inner := by
  induction path generalizing value with
  | nil =>
    cases hpath
    exact .here _ _
  | cons step rest ih =>
    obtain ⟨next, hnext, hrest⟩ := Option.bind_eq_some_iff.1 hpath
    exact .inside (.inr (hplain.1 trivial)) hnext (ih hrest (hplain.next hnext))

/-- A field of an object stays a field of the objects that replace it, unless it is the
reference.  The induction is on the hops, since one replacement may bring in the next one. -/
theorem exists_arrives_field (hcontext : context.Regular) (hdistinct : Fields.Distinct fields)
    {step : List Char} {next : Json} (hname : String.ofList step ≠ "ref")
    (hnext : fields.lookup (String.ofList step) = some next)
    (hinside : ∀ hops, ∃ left, Arrives context hops next path left inner) :
    ∃ left, Arrives context hops (.object fields) (step :: path) left inner := by
  induction hops generalizing fields with
  | zero =>
    obtain ⟨left, hleft⟩ := hinside 0
    exact ⟨left, .inside (.inl rfl) hnext hleft⟩
  | succ hops ih =>
    cases htarget : target? context fields with
    | none =>
      obtain ⟨left, hleft⟩ := hinside (hops + 1)
      exact ⟨left, .inside (.inr htarget) hnext hleft⟩
    | some target =>
      have hoverlay : (overlay target fields).lookup (String.ofList step) = some next := by
        rw [lookup_overlay hdistinct hname, hnext, Option.some_or]
      have hdistinct' : Fields.Distinct (overlay target fields) :=
        (distinct_of_target? hcontext htarget).setAll _
      obtain ⟨left, hleft⟩ := ih hdistinct' hoverlay
      exact ⟨left, .replaced htarget hleft⟩

/-- Resolving comes to every place that does not lie inside the reference of an object that is
replaced. -/
theorem exists_arrives (hcontext : context.Regular) (hvalue : value.Regular)
    (hpath : value.steps? path = some inner)
    (hkept : PlainAlong context (· = "ref") value path) (hops : Nat) :
    ∃ left, Arrives context hops value path left inner := by
  induction path generalizing value hops with
  | nil =>
    cases hpath
    exact ⟨hops, .here _ _⟩
  | cons step rest ih =>
    obtain ⟨next, hnext, hrest⟩ := Option.bind_eq_some_iff.1 hpath
    have hinside : ∀ hops, ∃ left, Arrives context hops next rest left inner :=
      ih (hvalue.step? hnext) hrest (hkept.next hnext)
    cases value with
    | object fields =>
      by_cases hname : String.ofList step = "ref"
      · obtain ⟨left, hleft⟩ := hinside hops
        exact ⟨left, .inside (.inr (hkept.1 hname)) hnext hleft⟩
      · exact exists_arrives_field hcontext hvalue.distinct hname hnext hinside
    | array items =>
      obtain ⟨left, hleft⟩ := hinside hops
      exact ⟨left, .inside (.inr rfl) hnext hleft⟩
    | _ => cases hnext

/-! ## References left as written -/

/-- At every place of a schema that is not given up with the object around it, a reference that
leads somewhere is left as written exactly if the length of its circle divides the number of hops
left at that place.  There are all hops left where no object around it refers to another one.  In
general a reference that leads somewhere stands at a place in the end exactly if it is the one
that the hops left there lead to. -/
theorem resolve_eq_self_iff_cycleLength_dvd {schema : Json} (hcontext : context.Regular)
    (hschema : schema.Regular) :
    (∀ path text, schema.steps? path = some (.string text) →
      PlainAlong context (· = "ref") schema path → lookup? context text ≠ none →
      ∃ left ≤ maxHops + 1, Arrives context (maxHops + 1) schema path left (.string text) ∧
        (PlainAlong context (fun _ => True) schema path → left = maxHops + 1) ∧
        ((resolve context schema).steps? path = some (.string text) ↔
          cycleLength context text ∣ left)) ∧
    ∀ path left text, Arrives context (maxHops + 1) schema path left (.string text) →
      ∀ reached, lookup? context reached ≠ none →
        ((resolve context schema).steps? path = some (.string reached) ↔
          (hopOn context)^[left] (some text) = some reached) := by
  have hleft : ∀ {path left text}, Arrives context (maxHops + 1) schema path left (.string text) →
      ∀ {reached}, lookup? context reached ≠ none →
        ((resolve context schema).steps? path = some (.string reached) ↔
          (hopOn context)^[left] (some text) = some reached) := by
    intro path left text harrives reached hreached
    rw [resolve, harrives.steps?_resolveWithin, Option.some.injEq]
    exact resolveWithin_eq_string_iff hreached
  refine ⟨?_, fun path left text harrives reached => hleft harrives⟩
  intro path text hpath hkept hfound
  have hcycle : ∀ {left}, Arrives context (maxHops + 1) schema path left (.string text) →
      ((resolve context schema).steps? path = some (.string text) ↔
        cycleLength context text ∣ left) := by
    intro left harrives
    rw [hleft harrives hfound]
    exact Function.isPeriodicPt_iff_minimalPeriod_dvd
  by_cases hplain : PlainAlong context (fun _ => True) schema path
  · have harrives : Arrives context (maxHops + 1) schema path (maxHops + 1) (.string text) :=
      arrives_of_plainAlong hpath hplain
    exact ⟨maxHops + 1, Nat.le_refl _, harrives, fun _ => rfl, hcycle harrives⟩
  · obtain ⟨left, harrives⟩ := exists_arrives hcontext hschema hpath hkept (maxHops + 1)
    exact ⟨left, harrives.le, harrives, fun h => absurd h hplain, hcycle harrives⟩

/-- Three texts that lead to each other in a circle, and a definition beside them. -/
def threeRing : Json :=
  .object [("a", .string "$b"), ("b", .string "$c"), ("c", .string "$a"),
    ("card", .object [("component", .string "Card")])]

/-- A section with a text of the circle, and one inside an object that refers to the definition. -/
def ringPage : Json :=
  .object [("name", .string "page"), ("content", .array [.string "$a",
    .object [("ref", .string "$card"), ("label", .string "$b")]])]

/-- With thirty-three hops left the text has gone round the circle eleven times and is left as it
was written.  The object inside takes one hop, and the thirty-two that are left for its label lead
to another text of the circle. -/
theorem resolve_ringPage :
    threeRing.Regular ∧ ringPage.Regular ∧ cycleLength threeRing "$a" = 3 ∧
    cycleLength threeRing "$b" = 3 ∧
    (resolve threeRing ringPage).steps? ["content".toList, "0".toList] = some (.string "$a") ∧
    (resolve threeRing ringPage).steps? ["content".toList, "1".toList, "label".toList] ≠
      some (.string "$b") := by
  have hcontext : threeRing.Regular := by
    simp [threeRing, Json.Regular, Json.RegularFields, Fields.Distinct]
  have hschema : ringPage.Regular := by
    simp [ringPage, Json.Regular, Json.RegularItems, Json.RegularFields, Fields.Distinct]
  have : Fact (Nat.Prime 3) := ⟨Nat.prime_three⟩
  have hcycle : cycleLength threeRing "$a" = 3 :=
    Function.minimalPeriod_eq_prime (by decide +kernel) (by decide +kernel)
  have hcycle' : cycleLength threeRing "$b" = 3 :=
    Function.minimalPeriod_eq_prime (by decide +kernel) (by decide +kernel)
  obtain ⟨hplaces, -⟩ := resolve_eq_self_iff_cycleLength_dvd hcontext hschema
  refine ⟨hcontext, hschema, hcycle, hcycle', ?_, ?_⟩
  · obtain ⟨left, -, -, hall, hiff⟩ := hplaces ["content".toList, "0".toList] "$a"
      (by decide +kernel) (by decide +kernel) (by decide +kernel)
    rw [hiff, hcycle, hall (by decide +kernel)]
    decide
  · obtain ⟨left, -, harrives, -, hiff⟩ := hplaces
      ["content".toList, "1".toList, "label".toList] "$b"
      (by decide +kernel) (by decide +kernel) (by decide +kernel)
    have hreplaced : Arrives threeRing (maxHops + 1) ringPage
        ["content".toList, "1".toList, "label".toList] maxHops (.string "$b") :=
      .inside (.inr (by decide +kernel)) rfl <| .inside (.inr rfl) rfl <| .replaced rfl <|
        .inside (.inr (by decide +kernel)) rfl (.here _ _)
    rw [Ne, hiff, hcycle', (harrives.unique hreplaced).1]
    decide

/-- Two texts that lead to each other, and an object with a reference to itself in it. -/
def twoRing : Json :=
  .object [("a", .string "$b"), ("b", .string "$a"),
    ("tree", .object [("inside", .string "$tree")])]

/-- A text of the circle of two is replaced by the other one. -/
theorem exists_not_left_as_written :
    cycleLength twoRing "$a" = 2 ∧ resolve twoRing (.string "$a") = .string "$b" := by
  have : Fact (Nat.Prime 2) := ⟨Nat.prime_two⟩
  exact ⟨Function.minimalPeriod_eq_prime (by decide +kernel) (by decide +kernel),
    by decide +kernel⟩

end Reference

end ViewSchema
