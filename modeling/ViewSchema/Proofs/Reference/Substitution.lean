import Mathlib.Data.Prod.Lex
import Mathlib.Logic.Relation
import ViewSchema.Json.Depth
import ViewSchema.Proofs.Json.Equality
import ViewSchema.Proofs.Reference.Agreement

/-!
# Full substitution

Resolving a value calls itself for the values inside and for what references lead to, which may
be anything in the context, the place that the reference stands at included.  It ends
nevertheless, because every hop counts.  As long as no call has too many hops behind it, nothing
is left out: every reference is replaced by what it stands for in the end.

Main results:

- Definition `Reference.Calls` and theorem `Reference.wellFounded_calls`: the calls that
  resolving makes, and that there is no infinite chain of them.
- Definition `Reference.Substitutes`: what a value stands for, without any bound on chains.
- Theorem `Reference.NeverTooDeep.substitutes`: where no call is too deep, resolving gives it.
- Theorem `Reference.resolve_complete`: nothing is left to be resolved then.
-/

namespace ViewSchema

/-! ## What stands in a value -/

namespace Json

/-- `value.Part part`: the part stands in the value, at any depth; the value itself counts. -/
inductive Part : Json → Json → Prop
  | self (value : Json) : Part value value
  | item {items : List Json} {item part : Json} :
    item ∈ items → Part item part → Part (array items) part
  | member {fields : List (String × Json)} {field : String × Json} {part : Json} :
    field ∈ fields → Part field.2 part → Part (object fields) part

/-- The texts of a part are texts of the value. -/
theorem Part.mem_texts {value part : Json} {text : String} (h : Part value part)
    (htext : text ∈ part.texts) : text ∈ value.texts := by
  induction h with
  | self value => exact htext
  | item hitem _ ih => exact mem_texts_array.2 ⟨_, hitem, ih htext⟩
  | member hfield _ ih => exact mem_texts_object.2 ⟨_, hfield, ih htext⟩

end Json

namespace Reference

variable {context : Json} {depth : Nat} {value result : Json} {text : String}

/-! ## Calls -/

/-- The calls that resolving a value makes, each with the hops behind it. -/
def nextCalls (context : Json) (depth : Nat) (value : Json) : List (Nat × Json) :=
  if maxHops < depth then []
  else
    match value with
    | .string s => ((lookup? context s).map fun found => (depth + 1, found)).toList
    | .array items => items.map fun item => (depth, item)
    | .object fields =>
      match target? context fields with
      | some target => [(depth + 1, .object (overlay target fields))]
      | none => fields.map fun field => (depth, field.2)
    | _ => []

/-- One call makes another one. -/
def Calls (context : Json) (call next : Nat × Json) : Prop :=
  next ∈ nextCalls context call.1 call.2

/-- The calls that follow one within the limit, by the kind of its value. -/
theorem nextCalls_of_le (h : depth ≤ maxHops) : nextCalls context depth value =
    match value with
    | .string s => ((lookup? context s).map fun found => (depth + 1, found)).toList
    | .array items => items.map fun item => (depth, item)
    | .object fields =>
      match target? context fields with
      | some target => [(depth + 1, .object (overlay target fields))]
      | none => fields.map fun field => (depth, field.2)
    | _ => [] :=
  if_neg (Nat.not_lt.2 h)

/-- A call is made for what a reference leads to, which is one hop further, or for a value
inside. -/
theorem Calls.cases {call next : Nat × Json} (h : Calls context call next) :
    call.1 ≤ maxHops ∧
      (next.1 = call.1 + 1 ∨ next.1 = call.1 ∧ next.2.depth < call.2.depth) := by
  obtain ⟨depth, value⟩ := call
  have hle : depth ≤ maxHops := by
    by_contra hlt
    simp [Calls, nextCalls, Nat.lt_of_not_le hlt] at h
  refine ⟨hle, ?_⟩
  rw [Calls, nextCalls_of_le hle] at h
  cases value with
  | string text =>
    obtain ⟨found, -, rfl⟩ := Option.map_eq_some_iff.1 (Option.mem_toList.1 h)
    exact .inl rfl
  | array items =>
    obtain ⟨item, hitem, rfl⟩ := List.mem_map.1 h
    exact .inr ⟨rfl, Json.depth_lt_of_mem_array hitem⟩
  | object fields =>
    cases htarget : target? context fields with
    | some target =>
      simp only [htarget, List.mem_singleton] at h
      exact .inl (congrArg Prod.fst h)
    | none =>
      simp only [htarget] at h
      obtain ⟨field, hfield, rfl⟩ := List.mem_map.1 h
      exact .inr ⟨rfl, Json.depth_lt_of_mem_object hfield⟩
  | _ => cases h

/-- There is no infinite chain of calls: what a reference leads to may be larger than what
stands there, but only so many hops are taken, and between two of them values get smaller. -/
theorem wellFounded_calls (context : Json) :
    WellFounded fun next call => Calls context call next := by
  have hlex := WellFounded.prod_lex Nat.lt_wfRel.wf Nat.lt_wfRel.wf
  refine Subrelation.wf ?_
    (InvImage.wf (fun call : Nat × Json => (maxHops + 1 - call.1, call.2.depth)) hlex)
  intro next call hcall
  obtain ⟨hle, hhop | ⟨hsame, hinside⟩⟩ := hcall.cases
  · exact Prod.Lex.left _ _ (show maxHops + 1 - next.1 < maxHops + 1 - call.1 by omega)
  · rw [InvImage, hsame]
    exact Prod.Lex.right _ hinside

/-! ## Results of calls -/

/-- What a call gives for a value. -/
def resolveAt (context : Json) (depth : Nat) (value : Json) : Json :=
  resolveWithin context (maxHops + 1 - depth) value

/-- Beyond the limit a value is left as it is. -/
theorem resolveAt_of_lt (h : maxHops < depth) : resolveAt context depth value = value := by
  have hhops : maxHops + 1 - depth = 0 := by omega
  rw [resolveAt, hhops, resolveWithin]

/-- Within the limit a value is substituted, and what is found for it is resolved one level
deeper. -/
theorem resolveAt_of_le (h : depth ≤ maxHops) : resolveAt context depth value =
    substitute context (resolveAt context (depth + 1)) value := by
  have hhops : maxHops + 1 - depth = (maxHops + 1 - (depth + 1)) + 1 := by omega
  rw [resolveAt, hhops, resolveWithin]
  rfl

/-- Items are substituted one by one. -/
theorem substituteItems_eq_map (follow : Json → Json) (items : List Json) :
    substituteItems context follow items = items.map (substitute context follow) := by
  induction items with
  | nil => rfl
  | cons item rest ih => rw [substituteItems, ih, List.map_cons]

/-- Fields are substituted one by one. -/
theorem substituteFields_eq_map (follow : Json → Json) (fields : List (String × Json)) :
    substituteFields context follow fields =
      fields.map fun field => (field.1, substitute context follow field.2) := by
  induction fields with
  | nil => rfl
  | cons field rest ih => rw [substituteFields, ih, List.map_cons]

section Equations

variable {items : List Json} {fields target : List (String × Json)} {found : Json}

/-- A text that refers to nothing is kept. -/
theorem resolveAt_kept (h : lookup? context text = none) :
    resolveAt context depth (.string text) = .string text := by
  rcases Nat.lt_or_ge maxHops depth with hlt | hle
  · exact resolveAt_of_lt hlt
  · rw [resolveAt_of_le hle, substitute, h]

/-- A reference is followed one level deeper. -/
theorem resolveAt_followed (hle : depth ≤ maxHops) (h : lookup? context text = some found) :
    resolveAt context depth (.string text) = resolveAt context (depth + 1) found := by
  rw [resolveAt_of_le hle, substitute, h]

/-- Items are resolved on the level of their array. -/
theorem resolveAt_array (hle : depth ≤ maxHops) :
    resolveAt context depth (.array items) = .array (items.map (resolveAt context depth)) := by
  rw [resolveAt_of_le hle, substitute, substituteItems_eq_map]
  exact congrArg Json.array (List.map_congr_left fun item _ => (resolveAt_of_le hle).symm)

/-- Fields are resolved on the level of their object, unless it refers to another one. -/
theorem resolveAt_object (hle : depth ≤ maxHops) (h : target? context fields = none) :
    resolveAt context depth (.object fields) =
      .object (fields.map fun field => (field.1, resolveAt context depth field.2)) := by
  rw [resolveAt_of_le hle, substitute, h]
  simp only [substituteFields_eq_map, resolveAt_of_le hle]

/-- An object that refers to another one is laid over it and resolved one level deeper. -/
theorem resolveAt_replaced (hle : depth ≤ maxHops) (h : target? context fields = some target) :
    resolveAt context depth (.object fields) =
      resolveAt context (depth + 1) (.object (overlay target fields)) := by
  rw [resolveAt_of_le hle, substitute, h]

end Equations

/-! ## What a value stands for -/

/-- `Substitutes context value result`: with every reference replaced by what it leads to, and so
on without end, the value becomes the result. -/
inductive Substitutes (context : Json) : Json → Json → Prop
  | null : Substitutes context .null .null
  | bool (b : Bool) : Substitutes context (.bool b) (.bool b)
  | number (n : Number) : Substitutes context (.number n) (.number n)
  | kept {text : String} : lookup? context text = none →
    Substitutes context (.string text) (.string text)
  /-- A text that is a reference stands for what the value at its place stands for. -/
  | followed {text : String} {found result : Json} : lookup? context text = some found →
    Substitutes context found result → Substitutes context (.string text) result
  | array {items : List Json} (f : Json → Json) :
    (∀ item ∈ items, Substitutes context item (f item)) →
    Substitutes context (.array items) (.array (items.map f))
  | object {fields : List (String × Json)} (f : Json → Json) : target? context fields = none →
    (∀ field ∈ fields, Substitutes context field.2 (f field.2)) →
    Substitutes context (.object fields) (.object (fields.map fun field => (field.1, f field.2)))
  /-- An object that refers to another one stands for that one with its own fields over it. -/
  | replaced {fields target : List (String × Json)} {result : Json} :
    target? context fields = some target →
    Substitutes context (.object (overlay target fields)) result →
    Substitutes context (.object fields) result

namespace Substitutes

/-- A value stands for one thing at most. -/
theorem unique {result' : Json} (h : Substitutes context value result)
    (h' : Substitutes context value result') : result = result' := by
  induction h generalizing result' with
  | null | bool | number =>
    cases h'
    rfl
  | kept hnone =>
    cases h' with
    | kept _ => rfl
    | followed hsome _ =>
      rw [hnone] at hsome
      cases hsome
  | followed hsome _ ih =>
    cases h' with
    | kept hnone =>
      rw [hnone] at hsome
      cases hsome
    | followed hsome' h' => exact ih (Option.some.inj (hsome.symm.trans hsome') ▸ h')
  | array f _ ih =>
    cases h' with
    | array g h' =>
      exact congrArg Json.array (List.map_congr_left fun item hitem =>
        ih item hitem (h' item hitem))
  | object f hnone _ ih =>
    cases h' with
    | object g _ h' =>
      exact congrArg Json.object (List.map_congr_left fun field hfield =>
        congrArg (Prod.mk field.1) (ih field hfield (h' field hfield)))
    | replaced hsome _ =>
      rw [hnone] at hsome
      cases hsome
  | replaced hsome _ ih =>
    cases h' with
    | object _ hnone _ =>
      rw [hnone] at hsome
      cases hsome
    | replaced hsome' h' => exact ih (Option.some.inj (hsome.symm.trans hsome') ▸ h')

/-- No text that leads anywhere is left. -/
theorem lookup?_eq_none (h : Substitutes context value result) :
    ∀ text ∈ result.texts, lookup? context text = none := by
  induction h with
  | null | bool | number => simp [Json.texts]
  | kept hnone =>
    intro text htext
    rwa [List.mem_singleton.1 htext]
  | followed _ _ ih | replaced _ _ ih => exact ih
  | array f _ ih =>
    intro text htext
    obtain ⟨inner, hinner, htext⟩ := Json.mem_texts_array.1 htext
    obtain ⟨item, hitem, rfl⟩ := List.mem_map.1 hinner
    exact ih item hitem text htext
  | object f _ _ ih =>
    intro text htext
    obtain ⟨inner, hinner, htext⟩ := Json.mem_texts_object.1 htext
    obtain ⟨field, hfield, rfl⟩ := List.mem_map.1 hinner
    exact ih field hfield text htext

end Substitutes

/-! ## Calls that are not too deep -/

/-- No call that comes of this one has more hops behind it than are followed. -/
def NeverTooDeep (context : Json) (depth : Nat) (value : Json) : Prop :=
  ∀ call, Relation.ReflTransGen (Calls context) (depth, value) call → call.1 ≤ maxHops

namespace NeverTooDeep

/-- What never goes too deep does not begin too deep. -/
theorem le (h : NeverTooDeep context depth value) : depth ≤ maxHops := h _ .refl

/-- What follows a call that never goes too deep never does either. -/
theorem next (h : NeverTooDeep context depth value) {next : Nat × Json}
    (hnext : next ∈ nextCalls context depth value) : NeverTooDeep context next.1 next.2 :=
  fun call hcall => h call (.head hnext hcall)

/-- A list of calls that has those which its calls make, none of them too deep, shows it. -/
theorem of_mem {calls : List (Nat × Json)} (hmem : (depth, value) ∈ calls)
    (hcalls : ∀ call ∈ calls, call.1 ≤ maxHops ∧
      ∀ next ∈ nextCalls context call.1 call.2, next ∈ calls) :
    NeverTooDeep context depth value := by
  intro call hcall
  have hin : call ∈ calls := by
    induction hcall with
    | refl => exact hmem
    | tail _ hnext ih => exact (hcalls _ ih).2 _ hnext
  exact (hcalls call hin).1

/-- A call gives what its value stands for.  The induction is along the calls, since what a
reference leads to is no part of the value. -/
theorem substitutes (h : NeverTooDeep context depth value) :
    Substitutes context value (resolveAt context depth value) := by
  induction hcall : (depth, value) using (wellFounded_calls context).induction
    generalizing depth value with
  | _ call ih =>
    subst hcall
    have hle := h.le
    have hnext : ∀ next ∈ nextCalls context depth value,
        Substitutes context next.2 (resolveAt context next.1 next.2) :=
      fun next hnext => ih next hnext (h.next hnext) rfl
    rw [nextCalls_of_le hle] at hnext
    cases value with
    | null =>
      rw [resolveAt_of_le hle]
      exact .null
    | bool b =>
      rw [resolveAt_of_le hle]
      exact .bool b
    | number n =>
      rw [resolveAt_of_le hle]
      exact .number n
    | string text =>
      cases hlookup : lookup? context text with
      | none =>
        rw [resolveAt_kept hlookup]
        exact .kept hlookup
      | some found =>
        rw [resolveAt_followed hle hlookup]
        exact .followed hlookup (hnext (depth + 1, found) (by simp [hlookup]))
    | array items =>
      rw [resolveAt_array hle]
      exact .array _ fun item hitem => hnext (depth, item) (List.mem_map_of_mem hitem)
    | object fields =>
      cases htarget : target? context fields with
      | none =>
        simp only [htarget, List.forall_mem_map] at hnext
        rw [resolveAt_object hle htarget]
        exact .object _ htarget hnext
      | some target =>
        simp only [htarget, List.forall_mem_singleton] at hnext
        rw [resolveAt_replaced hle htarget]
        exact .replaced htarget hnext

end NeverTooDeep

/-! ## Values without references -/

/-- Where no text leads anywhere, no object refers to another one. -/
theorem target?_eq_none {fields : List (String × Json)}
    (h : ∀ text ∈ (Json.object fields).texts, lookup? context text = none) :
    target? context fields = none := by
  unfold target?
  cases href : Fields.string? fields "ref" with
  | none => rfl
  | some text =>
    obtain ⟨value, hvalue, htext⟩ := Option.bind_eq_some_iff.1 href
    cases value with
    | string s =>
      cases htext
      have hnone := h text (Json.mem_texts_object.2
        ⟨_, Fields.mem_of_lookup hvalue, List.mem_singleton_self _⟩)
      rw [Option.bind_some, hnone]
      rfl
    | _ => cases htext

/-- Such a value is left as it is. -/
theorem resolveAt_eq_self (h : ∀ text ∈ value.texts, lookup? context text = none) :
    resolveAt context depth value = value := by
  rcases Nat.lt_or_ge maxHops depth with hlt | hle
  · exact resolveAt_of_lt hlt
  induction hdepth : value.depth using Nat.strongRecOn generalizing value with
  | _ bound ih =>
    subst hdepth
    cases value with
    | string text => exact resolveAt_kept (h text (List.mem_singleton_self _))
    | array items =>
      have hitems : ∀ item ∈ items, resolveAt context depth item = item := fun item hitem =>
        ih _ (Json.depth_lt_of_mem_array hitem)
          (fun text htext => h text (Json.mem_texts_array.2 ⟨item, hitem, htext⟩)) rfl
      rw [resolveAt_array hle, List.map_congr_left hitems, List.map_id']
    | object fields =>
      have hfields : ∀ field ∈ fields, (field.1, resolveAt context depth field.2) = field :=
        fun field hfield => congrArg (Prod.mk field.1) <|
          ih _ (Json.depth_lt_of_mem_object hfield)
            (fun text htext => h text (Json.mem_texts_object.2 ⟨field, hfield, htext⟩)) rfl
      rw [resolveAt_object hle (target?_eq_none h), List.map_congr_left hfields, List.map_id']
    | _ => exact resolveAt_of_le hle

/-- Resolving ends in every context, also in one whose references go round in a circle.  Where
no call is too deep, it gives what the value stands for and nothing else: no text that leads
anywhere is left in it, no object that refers to another one, and resolving it again changes
nothing.  A value without any reference that leads somewhere is returned as it is. -/
theorem resolve_complete (context : Json) :
    (WellFounded fun next call => Calls context call next) ∧
    (∀ schema, NeverTooDeep context 0 schema →
      (∀ result, Substitutes context schema result ↔ result = resolve context schema) ∧
      (∀ text ∈ (resolve context schema).texts, lookup? context text = none) ∧
      (∀ fields, (resolve context schema).Part (.object fields) →
        target? context fields = none) ∧
      resolve context (resolve context schema) = resolve context schema) ∧
    ∀ schema, (∀ text ∈ schema.texts, lookup? context text = none) →
      resolve context schema = schema := by
  have hself : ∀ value, (∀ text ∈ value.texts, lookup? context text = none) →
      resolve context value = value := fun value h => @resolveAt_eq_self context 0 value h
  refine ⟨wellFounded_calls context, fun schema hdeep => ?_, hself⟩
  have hresolve : Substitutes context schema (resolve context schema) := hdeep.substitutes
  have hnone := hresolve.lookup?_eq_none
  refine ⟨fun result => ⟨fun h => h.unique hresolve, ?_⟩, hnone, ?_, hself _ hnone⟩
  · rintro rfl
    exact hresolve
  · intro fields hpart
    exact target?_eq_none fun text htext => hnone text (hpart.mem_texts htext)

/-- Definitions of which one leads to another, and one that leads to itself. -/
def cardContext : Json :=
  .object [("card", .object [("component", .string "Card"), ("ref", .string "$base"),
      ("content", .string "$texts/0")]),
    ("base", .object [("classes", .string "plain"), ("content", .string "none")]),
    ("texts", .array [.string "$texts/1", .string "Hello"]),
    ("again", .string "$again")]

/-- A section that refers to a definition, and to nothing at two places. -/
def promo : Json :=
  .object [("name", .string "promo"), ("ref", .string "$card"),
    ("label", .array [.string "$5.00", .string "$missing", .string "$texts"])]

/-- The calls that come of a call, down to some level. -/
def callsDownTo (context : Json) : Nat → Nat × Json → List (Nat × Json)
  | 0, _ => []
  | levels + 1, call =>
    call :: (nextCalls context call.1 call.2).flatMap (callsDownTo context levels)

/-- Its references are followed through the definitions, and the circle beside them does not
matter. -/
theorem resolve_complete_promo :
    NeverTooDeep cardContext 0 promo ∧
    resolve cardContext promo = .object [("classes", .string "plain"),
      ("content", .string "Hello"), ("component", .string "Card"), ("name", .string "promo"),
      ("label", .array [.string "$5.00", .string "$missing",
        .array [.string "Hello", .string "Hello"]])] ∧
    resolve cardContext (resolve cardContext promo) = resolve cardContext promo ∧
    resolve cardContext (.array [.string "$5.00"]) = .array [.string "$5.00"] := by
  obtain ⟨-, hcomplete, hself⟩ := resolve_complete cardContext
  have hcalls : ∀ call ∈ callsDownTo cardContext 8 (0, promo), call.1 ≤ maxHops ∧
      ∀ next ∈ nextCalls cardContext call.1 call.2,
        next ∈ callsDownTo cardContext 8 (0, promo) := by
    decide +kernel
  have hdeep : NeverTooDeep cardContext 0 promo := .of_mem (by decide +kernel) hcalls
  exact ⟨hdeep, by decide +kernel, (hcomplete promo hdeep).2.2.2, hself _ (by decide +kernel)⟩

end Reference

end ViewSchema
