import ViewSchema.Proofs.Compile.Inside
import ViewSchema.Proofs.Compile.Visits
import ViewSchema.Proofs.Json.Merging
import ViewSchema.Proofs.Reference.Substitution

/-!
# Overrides by name

An override may bring in a section whose override brings in the first one again, and then compiling
never ends.  Nothing else keeps it from ending: whatever is compiled has been put together from
parts of the schema and of the overrides, laid over each other in layers.  A layer loses a level
with every step inside, so that there are only finitely many such values, and a chain of values
that is long enough has one of them inside itself.

Main results:

- Definition `Composed`: values put together from parts in layers of bounded depth.
- Theorem `Compiler.composed_inside`: compiling such a value compiles such values inside.
- Theorem `length_layered`: how many of them there are.
- Theorem `Compiler.ends_withOverrides_iff`: compiling under a map of overrides ends exactly if no
  value is compiled inside itself, and then within a budget that is known beforehand.
-/

namespace ViewSchema

/-! ## Parts -/

namespace Json

variable {value inner : Json}

theorem depth_pos (value : Json) : 0 < value.depth := by
  cases value with
  | array items => rw [depth]; omega
  | object fields => rw [depth]; omega
  | _ => exact Nat.one_pos

/-- `value.Holds inner`: the inner value is an item of an array or stands in an object under a
name. -/
inductive Holds : Json → Json → Prop
  | item {items : List Json} {item : Json} : item ∈ items → Holds (array items) item
  | field {fields : List (String × Json)} {name : String} {inner : Json} :
    fields.lookup name = some inner → Holds (object fields) inner

theorem Holds.depth_lt (h : value.Holds inner) : inner.depth < value.depth := by
  cases h with
  | item hitem => exact depth_lt_of_mem_array hitem
  | field hfield => exact depth_lt_of_mem_object (Fields.mem_of_lookup hfield)

theorem Holds.part (h : value.Holds inner) : value.Part inner := by
  cases h with
  | item hitem => exact .item hitem (.self _)
  | field hfield => exact .member (Fields.mem_of_lookup hfield) (.self _)

namespace Part

variable {part : Json}

/-- Parts of parts are parts. -/
theorem trans (h : value.Part part) (h' : part.Part inner) : value.Part inner := by
  induction h with
  | self => exact h'
  | item hitem _ ih => exact .item hitem (ih h')
  | member hfield _ ih => exact .member hfield (ih h')

/-- Parts of regular values are regular. -/
theorem regular (h : value.Part part) (hvalue : value.Regular) : part.Regular := by
  induction h with
  | self => exact hvalue
  | item hitem _ ih => exact ih (regular_array_iff.1 hvalue _ hitem)
  | member hfield _ ih => exact ih ((regular_object_iff.1 hvalue).2 _ hfield)

/-- Every part is listed. -/
theorem mem_parts (h : value.Part part) : part ∈ value.parts := by
  induction h with
  | self value => cases value <;> simp [parts]
  | @item items item part hitem _ ih =>
    rw [parts]
    refine List.mem_cons_of_mem _ ?_
    induction items with
    | nil => cases hitem
    | cons first rest ihrest =>
      rw [partsOfItems, List.mem_append]
      rcases List.mem_cons.1 hitem with rfl | hrest
      · exact .inl ih
      · exact .inr (ihrest hrest)
  | @member fields field part hfield _ ih =>
    rw [parts]
    refine List.mem_cons_of_mem _ ?_
    induction fields with
    | nil => cases hfield
    | cons first rest ihrest =>
      rw [partsOfFields, List.mem_append]
      rcases List.mem_cons.1 hfield with rfl | hrest
      · exact .inl ih
      · exact .inr (ihrest hrest)

end Part

end Json

/-! ## Values in layers -/

/-- A merge is the value on top, unless both values are objects. -/
theorem deepMerge_cases (base overlay : Json) :
    deepMerge base overlay = overlay ∨ ∃ fields others, base = .object fields ∧
      overlay = .object others ∧
      deepMerge base overlay = .object (deepMergeFields fields others) := by
  cases overlay with
  | object others =>
    cases base with
    | object fields => exact .inr ⟨fields, others, rfl, rfl, by rw [deepMerge]⟩
    | _ => exact .inl (by simp only [deepMerge])
  | _ => exact .inl (by simp only [deepMerge])

/-- `Composed source depth value`: the value is a source value or has one laid over it, layer by
layer.  The layer on top is nested up to the depth, and the ones below less and less. -/
inductive Composed (source : Json → Prop) : Nat → Json → Prop
  | part {depth : Nat} {value : Json} : source value → value.depth ≤ depth →
    Composed source depth value
  | merged {depth : Nat} {base overlay : Json} : Composed source depth base → source overlay →
    overlay.depth ≤ depth + 1 → Composed source (depth + 1) (deepMerge base overlay)

/-- Values that are closed under what stands in them, and none of which repeats a name. -/
structure ClosedSource (source : Json → Prop) : Prop where
  holds {part inner : Json} : source part → part.Holds inner → source inner
  regular {part : Json} : source part → part.Regular

namespace Composed

variable {source : Json → Prop} {depth : Nat} {value inner : Json}

theorem succ (h : Composed source depth value) : Composed source (depth + 1) value := by
  induction h with
  | part hsource hdepth => exact .part hsource (Nat.le_succ_of_le hdepth)
  | merged _ hsource hdepth ih => exact .merged ih hsource (Nat.le_succ_of_le hdepth)

theorem regular (hclosed : ClosedSource source) (h : Composed source depth value) :
    value.Regular := by
  induction h with
  | part hsource _ => exact hclosed.regular hsource
  | merged _ hsource _ ih => exact ih.deepMerge (hclosed.regular hsource)

/-- What stands in a source value is composed a level lower. -/
theorem of_holds_source (hclosed : ClosedSource source) (hsource : source value)
    (hdepth : value.depth ≤ depth) (h : value.Holds inner) :
    ∃ less, depth = less + 1 ∧ Composed source less inner := by
  have hlt := h.depth_lt
  obtain ⟨less, rfl⟩ : ∃ less, depth = less + 1 := ⟨depth - 1, by omega⟩
  exact ⟨less, rfl, .part (hclosed.holds hsource h) (by omega)⟩

/-- What stands in a composed value is composed a level lower: every layer has gone down by one. -/
theorem of_holds (hclosed : ClosedSource source) (h : Composed source depth value)
    (hinner : value.Holds inner) : ∃ less, depth = less + 1 ∧ Composed source less inner := by
  induction h generalizing inner with
  | part hsource hdepth => exact of_holds_source hclosed hsource hdepth hinner
  | @merged depth base overlay hbase hsource hdepth ih =>
    rcases deepMerge_cases base overlay with htop | ⟨fields, others, rfl, rfl, hboth⟩
    · rw [htop] at hinner
      exact of_holds_source hclosed hsource hdepth hinner
    · rw [hboth] at hinner
      cases hinner with
      | @field _ name _ hfound =>
        refine ⟨depth, rfl, ?_⟩
        have hlaid : ∀ {laid}, others.lookup name = some laid →
            source laid ∧ laid.depth ≤ depth := by
          intro laid hlaid
          have hholds : (Json.object others).Holds laid := .field hlaid
          have hlt := hholds.depth_lt
          exact ⟨hclosed.holds hsource hholds, by omega⟩
        rw [lookup_deepMergeFields (hclosed.regular hsource).distinct] at hfound
        cases hothers : others.lookup name with
        | none =>
          rw [hothers] at hfound
          obtain ⟨less, rfl, hless⟩ := ih (.field hfound)
          exact hless.succ
        | some laid =>
          obtain ⟨hsource', hdepth'⟩ := hlaid hothers
          rw [hothers, Option.map_some, Option.some_or, Option.some.injEq] at hfound
          subst hfound
          cases hfields : fields.lookup name with
          | none => exact .part hsource' hdepth'
          | some below =>
            obtain ⟨less, rfl, hless⟩ := ih (.field hfields)
            exact .merged hless hsource' hdepth'

end Composed

/-- The values that parts can be composed to in up to so many layers. -/
def layered (parts : List Json) : Nat → List Json
  | 0 => []
  | layers + 1 => parts ++ (layered parts layers).flatMap fun base => parts.map (deepMerge base)

theorem length_layered (parts : List Json) (layers : Nat) :
    (layered parts layers).length = MutationMap.layerings parts.length layers := by
  induction layers with
  | zero => rfl
  | succ layers ih =>
    have hsum : ((layered parts layers).flatMap fun base => parts.map (deepMerge base)).length =
        (layered parts layers).length * parts.length := by
      simp [List.length_flatMap]
    rw [layered, List.length_append, hsum, ih, MutationMap.layerings, Nat.mul_succ,
      Nat.mul_comm, Nat.add_comm]

/-- Every composed value is listed. -/
theorem Composed.mem_layered {source : Json → Prop} {parts : List Json}
    (hsource : ∀ part, source part → part ∈ parts) {depth : Nat} {value : Json}
    (h : Composed source depth value) : value ∈ layered parts depth := by
  induction h with
  | @part depth value hpart hdepth =>
    have hpos := value.depth_pos
    obtain ⟨layers, rfl⟩ : ∃ layers, depth = layers + 1 := ⟨depth - 1, by omega⟩
    exact List.mem_append_left _ (hsource _ hpart)
  | merged _ hpart _ ih =>
    exact List.mem_append_right _
      (List.mem_flatMap.2 ⟨_, ih, List.mem_map_of_mem (hsource _ hpart)⟩)

/-! ## Sections under overrides -/

/-- The sections that a regular value is compiled as are regular. -/
theorem Section.regular_ofValue {value : Json} (h : value.Regular)
    {own : String × List (String × Json)} (hown : own ∈ Section.ofValue value) :
    (Json.object own.2).Regular := by
  cases value with
  | object fields =>
    unfold Section.ofValue at hown
    dsimp only at hown
    split at hown
    · rw [List.mem_singleton.1 hown]
      exact h
    · obtain ⟨entry, hentry, rfl⟩ := List.mem_map.1 hown
      exact Section.regular_ofEntry ((Json.regular_object_iff.1 h).2 entry hentry) entry.1
  | _ => cases hown

namespace Composed

variable {source : Json → Prop} {depth : Nat} {value inner : Json}

/-- The fields of the sections that a composed value is compiled as are composed a level lower,
but for their names. -/
theorem of_section (hclosed : ClosedSource source) (h : Composed source depth value)
    {own : String × List (String × Json)} (hown : own ∈ Section.ofValue value) {name : String}
    (hname : name ≠ "name") (hfound : own.2.lookup name = some inner) :
    ∃ less, depth = less + 1 ∧ Composed source less inner := by
  cases value with
  | object fields =>
    unfold Section.ofValue at hown
    dsimp only at hown
    split at hown
    · rw [List.mem_singleton.1 hown] at hfound
      exact h.of_holds hclosed (.field hfound)
    · obtain ⟨entry, hentry, rfl⟩ := List.mem_map.1 hown
      have hfields := h.regular hclosed
      have hheld : (Json.object fields).Holds entry.2 :=
        .field ((Fields.lookup_eq_some_iff hfields.distinct).2 hentry)
      obtain ⟨less, rfl, hless⟩ := h.of_holds hclosed hheld
      rw [Section.lookup_ofEntry_of_ne (hless.regular hclosed) hname] at hfound
      refine ⟨less, rfl, ?_⟩
      obtain ⟨key, member⟩ := entry
      cases member with
      | object fields =>
        obtain ⟨lesser, rfl, hlesser⟩ := hless.of_holds hclosed (.field hfound)
        exact hlesser.succ
      | _ =>
        -- An entry that is no object is the content of its section.
        change List.lookup name [("name", .string key), ("content", _)] = some inner at hfound
        rw [Fields.lookup_cons, if_neg hname, Fields.lookup_cons] at hfound
        split at hfound
        · exact Option.some.inj hfound ▸ hless
        · cases hfound
  | _ => cases hown

end Composed

/-- A compiler whose mutations are the overrides of a map. -/
def Compiler.withOverrides (c : Compiler) (map : MutationMap) : Compiler :=
  { c with mutate := map.hook }

namespace Compiler

variable {map : MutationMap} {schema value inner : Json} {source : Json → Prop} {depth : Nat}

/-- An override of a map stands in it. -/
theorem holds_of_hook {name : String} {overrides : List (String × Json)}
    (h : (map.lookup name).bind Json.object? = some overrides) :
    (Json.object map).Holds (.object overrides) := by
  obtain ⟨entry, hentry, hobject⟩ := Option.bind_eq_some_iff.1 h
  cases entry with
  | object found =>
    cases hobject
    exact .field hentry
  | _ => cases hobject

/-- The overrides of a regular map are regular. -/
theorem hookIsRegular_withOverrides (hmap : (Json.object map).Regular) (c : Compiler) :
    (c.withOverrides map).HookIsRegular :=
  fun _ _ _ _ hover => (holds_of_hook hover).part.regular hmap

/-- A field of a mutated section is composed in no more layers than the section, where its own
field is composed a level lower. -/
theorem composed_lookup_mutated (c : Compiler) (hclosed : ClosedSource source)
    (hsource : source (.object map)) (hdepth : (Json.object map).depth ≤ depth) {own name : String}
    {fields : List (String × Json)} (hown : ∀ value, fields.lookup name = some value →
      ∃ less, depth = less + 1 ∧ Composed source less value)
    (hfound : ((c.withOverrides map).mutated own fields).lookup name = some inner) :
    Composed source depth inner := by
  unfold mutated at hfound
  cases hover : (c.withOverrides map).mutate own fields with
  | none =>
    rw [hover] at hfound
    obtain ⟨less, rfl, hless⟩ := hown _ hfound
    exact hless.succ
  | some overrides =>
    have hheld := holds_of_hook hover
    have hoverrides := hclosed.holds hsource hheld
    rw [hover, applyMutation?, lookup_applyMutation (hclosed.regular hoverrides).distinct] at hfound
    cases hlookup : overrides.lookup name with
    | none =>
      rw [hlookup] at hfound
      obtain ⟨less, rfl, hless⟩ := hown _ hfound
      exact hless.succ
    | some value =>
      have hvalue : (Json.object overrides).Holds value := .field hlookup
      have hpart : source value := hclosed.holds hoverrides hvalue
      have hlow : value.depth ≤ depth :=
        Nat.le_trans (Nat.le_of_lt (Nat.lt_trans hvalue.depth_lt hheld.depth_lt)) hdepth
      rw [hlookup, Option.map_some, Option.some_or, Option.some.injEq] at hfound
      rw [← hfound]
      rcases overriddenBy_cases name (fields.lookup name) value with
        heq | ⟨base, hbase, heq⟩
      · rw [heq]
        exact .part hpart hlow
      · obtain ⟨less, rfl, hless⟩ := hown _ hbase
        rw [heq]
        exact .merged hless hpart hlow

/-- What is compiled directly inside a value that is composed of parts of the schema and of the
overrides is composed of them in no more layers. -/
theorem composed_inside (c : Compiler) (hclosed : ClosedSource source)
    (hsource : source (.object map)) (hdepth : (Json.object map).depth ≤ depth)
    (h : Composed source depth value)
    (hinside : (c.withOverrides map).Inside value inner) : Composed source depth inner := by
  have hsection : ∀ own ∈ Section.ofValue value,
      inner ∈ (c.withOverrides map).valuesOf ((c.withOverrides map).mutated own.1 own.2) →
        Composed source depth inner := by
    intro own hown hvalue
    have hfields := Section.regular_ofValue (h.regular hclosed) hown
    have hmutated :=
      (hookIsRegular_withOverrides (hclosed.regular hsource) c).mutated hfields own.1
    obtain ⟨name, hname, hfound⟩ := exists_lookup_of_mem_valuesOf hmutated.distinct hvalue
    exact composed_lookup_mutated c hclosed hsource hdepth
      (fun value hlookup => h.of_section hclosed hown hname hlookup) hfound
  cases value with
  | array items =>
    obtain ⟨less, rfl, hless⟩ := h.of_holds hclosed (.item hinside)
    exact hless.succ
  | _ =>
    obtain ⟨own, hown, hvalue⟩ := List.mem_flatMap.1 hinside
    exact hsection own hown hvalue

/-- Whatever is compiled inside a schema is listed beforehand. -/
theorem mem_layered_of_reaches (c : Compiler) (hmap : (Json.object map).Regular)
    (hschema : schema.Regular) (h : (c.withOverrides map).Reaches schema value) :
    value ∈ layered (schema.parts ++ (Json.object map).parts)
      (max schema.depth (Json.object map).depth) := by
  have hclosed : ClosedSource fun part => schema.Part part ∨ (Json.object map).Part part :=
    ⟨fun hpart hinner => hpart.imp (·.trans hinner.part) (·.trans hinner.part),
      fun hpart => hpart.elim (·.regular hschema) (·.regular hmap)⟩
  have hcomposed : Composed (fun part => schema.Part part ∨ (Json.object map).Part part)
      (max schema.depth (Json.object map).depth) value := by
    induction h with
    | refl => exact .part (.inl (.self _)) (Nat.le_max_left _ _)
    | tail _ hstep ih =>
      exact composed_inside c hclosed (.inr (.self _)) (Nat.le_max_right _ _) ih hstep
  exact hcomposed.mem_layered fun part hpart => List.mem_append.2 (hpart.imp (·.mem_parts)
    (·.mem_parts))

instance {α : Type} (p : Compilation α) : Decidable p.Ends :=
  decidable_of_iff (p.run?.isSome = true)
    (by simp only [Compilation.Ends, Option.isSome_iff_exists, Prod.exists])

/-- Compiling a schema under a map of overrides ends exactly if nothing that is compiled on the way
comes inside itself, and then the budget of the map suffices.  Without overrides it always ends,
with calls that are nested no deeper than the schema. -/
theorem ends_withOverrides_iff (c : Compiler) (hmap : (Json.object map).Regular)
    (hschema : schema.Regular) (index : Option Nat) :
    ((∃ budget, ((c.withOverrides map).buildContent budget (.schema schema) index).Ends) ↔
      (c.withOverrides map).NeverInsideItself schema) ∧
    ((∃ budget, ((c.withOverrides map).buildContent budget (.schema schema) index).Ends) →
      ((c.withOverrides map).buildContent (map.budget schema) (.schema schema) index).Ends) ∧
    ((∀ name fields, c.mutate name fields = none) → ∀ budget, schema.depth < budget →
      (c.buildContent budget (.schema schema) index).Ends) := by
  have hnever : (∃ budget,
      ((c.withOverrides map).buildContent budget (.schema schema) index).Ends) →
        (c.withOverrides map).NeverInsideItself schema := by
    rintro ⟨budget, hends⟩
    exact (ends_build_iff.1 hends).neverInsideItself
  have hbudget : (c.withOverrides map).NeverInsideItself schema →
      ((c.withOverrides map).buildContent (map.budget schema) (.schema schema) index).Ends := by
    intro hacyclic
    cases map with
    | nil => exact ends_build (fun _ _ => rfl) (Nat.lt_succ_self _) .root
    | cons first rest =>
      have hends := endsWithin_of_mem
        (fun value hreaches => mem_layered_of_reaches c hmap hschema hreaches) hacyclic
      rw [length_layered, List.length_append] at hends
      exact ends_build_iff.2 hends
  exact ⟨⟨hnever, fun hacyclic => ⟨_, hbudget hacyclic⟩⟩, fun hends => hbudget (hnever hends),
    fun hhook budget hdepth => ends_build hhook hdepth .root⟩

/-- A section with an override that brings the section in again: first in a slot, then in the
content that it has without slots, and then as a component that does not compile its content. -/
def nestedCard : Json := .object [("name", .string "a"), ("component", .string "Card")]

def nestedCardOverrides : MutationMap :=
  [("a", .object [("header", .array [.array [.object [("name", .string "a")]]]),
    ("content", .array [.array [.object [("name", .string "a"),
      ("component", .string "Table")]]])])]

/-- Six levels do not suffice for the card with its overrides; without them one does for each level
of the card itself. -/
theorem ends_nestedCard :
    (Json.object nestedCardOverrides).Regular ∧ nestedCard.Regular ∧
      (plain.withOverrides nestedCardOverrides).NeverInsideItself nestedCard ∧
      ((plain.withOverrides nestedCardOverrides).buildContent
        (nestedCardOverrides.budget nestedCard) (.schema nestedCard) none).Ends ∧
      ¬ ((plain.withOverrides nestedCardOverrides).buildContent 6 (.schema nestedCard)
        none).Ends ∧
      (plain.buildContent (nestedCard.depth + 1) (.schema nestedCard) none).Ends := by
  have hmap : (Json.object nestedCardOverrides).Regular := by
    simp [nestedCardOverrides, Json.Regular, Json.RegularFields, Json.RegularItems,
      Fields.Distinct]
  have hschema : nestedCard.Regular := by
    simp [nestedCard, Json.Regular, Json.RegularFields, Fields.Distinct]
  have hends : ((plain.withOverrides nestedCardOverrides).buildContent 7 (.schema nestedCard)
      none).Ends := by
    decide
  have hshort : ¬ ((plain.withOverrides nestedCardOverrides).buildContent 6
      (.schema nestedCard) none).Ends := by
    decide
  obtain ⟨hiff, hbudget, hplain⟩ := ends_withOverrides_iff plain hmap hschema none
  exact ⟨hmap, hschema, hiff.1 ⟨7, hends⟩, hbudget ⟨7, hends⟩, hshort,
    hplain (fun _ _ => rfl) _ (Nat.lt_succ_self _)⟩

/-- A section with an override whose content is that section. -/
def bareSection : Json := .object [("name", .string "a")]

def ownContent : MutationMap := [("a", .object [("content", bareSection)])]

/-- Compiling such a section never ends. -/
theorem never_ends_ownContent :
    (Json.object ownContent).Regular ∧ bareSection.Regular ∧ ∀ budget,
      ¬ ((plain.withOverrides ownContent).buildContent budget (.schema bareSection) none).Ends := by
  refine ⟨?_, ?_, ?_⟩
  · simp [ownContent, bareSection, Json.Regular, Json.RegularFields, Fields.Distinct]
  · simp [bareSection, Json.Regular, Json.RegularFields, Fields.Distinct]
  · intro budget hends
    have hinside : (plain.withOverrides ownContent).Inside bareSection bareSection :=
      List.mem_singleton.2 rfl
    exact (ends_build_iff.1 hends).not_inside_itself (.single hinside)

end Compiler

end ViewSchema
