import Mathlib.Data.List.Perm.Subperm
import Mathlib.Logic.Relation
import ViewSchema.Proofs.Compile.Termination

/-!
# Values compiled inside values

Compiling a value compiles other values inside it: the items of an array, or the slots, the labels
and the content of sections as their mutation leaves them.  Which ones these are does not depend on
the sections around, so that compiling ends when no such chain is longer than the budget.  Where
all values that come inside a value are known, it is enough that none of them comes inside itself.

Main results:

- Definition `Section.ofValue`: the sections that a value is compiled as.
- Definition `Compiler.inside`: the values compiled directly inside a value.
- Theorem `Compiler.ends_build_iff`: which budgets suffice for a value.
- Theorem `Compiler.EndsWithin.neverInsideItself`: where compiling ends, no value comes inside
  itself.
- Theorem `Compiler.endsWithin_of_mem`: it ends for a value inside of which finitely many values
  come, none of them inside itself.
-/

namespace ViewSchema

namespace Compilation

variable {α β : Type}

/-- A sequence ends exactly if both of its parts do, where the second one does not depend on the
result of the first one. -/
theorem ends_andThen_iff {c : Compilation α} {f : α → Compilation β} {p : Prop}
    (h : ∀ a, (f a).Ends ↔ p) : (c.andThen f).Ends ↔ c.Ends ∧ p := by
  constructor
  · rintro ⟨b, names, hrun⟩
    obtain ⟨a, before, after, hfirst, hsecond, -⟩ := run?_andThen_eq_some.1 hrun
    exact ⟨⟨a, before, hfirst⟩, (h a).1 ⟨b, after, hsecond⟩⟩
  · rintro ⟨hc, hp⟩
    exact hc.andThen fun a => (h a).2 hp

/-- What is done ends. -/
theorem ends_done_iff (a : α) : (done a).Ends ↔ True := iff_true_intro (ends_done a)

/-- A result that is turned into another one ends as it did before. -/
theorem ends_andThen_done_iff {c : Compilation α} {f : α → β} :
    (c.andThen fun a => done (f a)).Ends ↔ c.Ends := by
  rw [ends_andThen_iff fun a => ends_done_iff (f a), and_true]

/-- A compiled list ends exactly if each of its items does. -/
theorem ends_forEach_iff {f : α → Compilation β} {xs : List α} :
    (forEach f xs).Ends ↔ ∀ x ∈ xs, (f x).Ends := by
  refine ⟨?_, ends_forEach⟩
  induction xs with
  | nil => simp
  | cons x xs ih =>
    intro h
    rw [forEach, ends_andThen_iff fun y => ends_andThen_done_iff] at h
    exact List.forall_mem_cons.2 ⟨h.1, ih h.2⟩

end Compilation

/-! ## Sections -/

/-- The sections that a value is compiled as, each with the name it is compiled under: an object
with a name is one, and an object without a name is one for each entry. -/
def Section.ofValue : Json → List (String × List (String × Json))
  | .object fields =>
    match name? fields with
    | some name => [(name, fields)]
    | none => fields.map fun entry =>
      ((name? (ofEntry entry.1 entry.2)).getD entry.1, ofEntry entry.1 entry.2)
  | _ => []

namespace Compiler

open Compilation

variable {c : Compiler} {recur : Json → Scope → Compilation Node}
  {fields : List (String × Json)} {name : String} {scope : Scope} {value inner : Json}

/-- The values that are compiled for a mutated section. -/
def valuesOf (c : Compiler) (mutated : List (String × Json)) : List Json :=
  if Section.isInactive mutated then []
  else
    (Section.present (Section.handedOn mutated) (c.descriptorOf mutated).slots).map Prod.snd ++
      (Section.present mutated Section.renderedFields).map Prod.snd ++
      (c.compiledContent? mutated).toList

/-- The values that are compiled directly inside a value. -/
def inside (c : Compiler) : Json → List Json
  | .array items => items
  | value => (Section.ofValue value).flatMap fun own => c.valuesOf (c.mutated own.1 own.2)

/-- One value is compiled directly inside another one. -/
def Inside (c : Compiler) (value inner : Json) : Prop := inner ∈ c.inside value

/-- One value is compiled inside another one, or is that one. -/
abbrev Reaches (c : Compiler) : Json → Json → Prop := Relation.ReflTransGen c.Inside

/-- No value that is compiled inside a value comes inside itself. -/
def NeverInsideItself (c : Compiler) (value : Json) : Prop :=
  ∀ inner, c.Reaches value inner → ¬ Relation.TransGen c.Inside inner inner

/-- Values that contain everything that is compiled directly inside them contain everything that is
compiled inside them. -/
theorem Reaches.mem_of_closed {values : List Json} (hvalue : value ∈ values)
    (hclosed : ∀ value ∈ values, ∀ inner ∈ c.inside value, inner ∈ values)
    (h : c.Reaches value inner) : inner ∈ values := by
  induction h with
  | refl => exact hvalue
  | tail _ hstep ih => exact hclosed _ ih _ hstep

/-- Values that are compiled for a section stand in it, and not under its name. -/
theorem exists_lookup_of_mem_valuesOf {mutated : List (String × Json)}
    (hdistinct : Fields.Distinct mutated) (h : value ∈ c.valuesOf mutated) :
    ∃ name, name ≠ "name" ∧ mutated.lookup name = some value := by
  unfold valuesOf at h
  split at h
  · cases h
  · rw [List.append_assoc, List.mem_append, List.mem_append] at h
    rcases h with hslot | hlabel | hcontent
    · obtain ⟨field, hfield, rfl⟩ := List.mem_map.1 hslot
      obtain ⟨slot, -, hpresent⟩ := List.mem_filterMap.1 hfield
      obtain ⟨found, hfound, rfl⟩ := Option.map_eq_some_iff.1 hpresent
      rw [Section.lookup_handedOn hdistinct] at hfound
      split at hfound
      · cases hfound
      · rename_i hfree
        exact ⟨slot, fun hname => hfree (hname ▸ by decide), hfound⟩
    · obtain ⟨field, hfield, rfl⟩ := List.mem_map.1 hlabel
      obtain ⟨label, hlabels, hpresent⟩ := List.mem_filterMap.1 hfield
      obtain ⟨found, hfound, rfl⟩ := Option.map_eq_some_iff.1 hpresent
      exact ⟨label, fun hname => absurd (hname ▸ hlabels) (by decide), hfound⟩
    · have hfound := Option.mem_toList.1 hcontent
      unfold compiledContent? at hfound
      split at hfound
      · cases hfound
      · exact ⟨"content", by decide, hfound⟩

/-! ## Which budgets suffice -/

/-- Named values end exactly if each value does. -/
theorem ends_buildNamed_iff :
    (buildNamed recur scope fields).Ends ↔ ∀ field ∈ fields, (recur field.2 scope).Ends := by
  rw [buildNamed, ends_forEach_iff]
  exact forall₂_congr fun field _ => ends_andThen_done_iff

/-- The children of a section end exactly if its content does. -/
theorem ends_sectionChildren_iff : (c.sectionChildren recur fields scope).Ends ↔
    ∀ content ∈ (fields.lookup "content").toList, (recur content scope).Ends := by
  cases hcontent : fields.lookup "content" with
  | none =>
    simp only [sectionChildren, hcontent, bind_eq_andThen, pure_eq_done, Option.toList_none]
    exact iff_of_true ((ends_done _).andThen fun _ => ends_done _) (by simp)
  | some content =>
    simp only [sectionChildren, hcontent, bind_eq_andThen, pure_eq_done, Option.toList_some,
      List.forall_mem_singleton]
    rw [ends_andThen_iff fun node => iff_true_intro ((ends_done _).andThen fun _ => ends_done _),
      and_true]

/-- A mutated section ends exactly if the values that are compiled for it do. -/
theorem ends_compileMutated_iff {mutated : List (String × Json)} :
    (c.compileMutated recur mutated name scope).Ends ↔ ∀ value ∈ c.valuesOf mutated,
      (recur value (scope.enter name (Section.handedOn mutated))).Ends := by
  unfold compileMutated valuesOf
  cases hactive : Section.isInactive mutated with
  | true => exact iff_of_true (ends_done _) (by simp)
  | false =>
    simp only [Bool.false_eq_true, if_false, List.forall_mem_append, List.forall_mem_map]
    rw [ends_andThen_iff fun slots => ends_andThen_iff fun labels => ends_andThen_done_iff,
      ends_buildNamed_iff, ends_buildNamed_iff, and_assoc]
    refine and_congr_right' (and_congr_right' ?_)
    unfold compiledContent?
    cases (c.descriptorOf mutated).keepsRawContent with
    | true => exact iff_of_true (ends_done _) (by simp)
    | false => exact ends_sectionChildren_iff

/-- So does a section before its mutation. -/
theorem ends_compileSection_iff :
    (c.compileSection recur fields name scope).Ends ↔
      ∀ value ∈ c.valuesOf (c.mutated name fields),
        (recur value (scope.enter name (Section.handedOn (c.mutated name fields)))).Ends := by
  have hvisit : (Compilation.visit name).Ends := ⟨(), [name], rfl⟩
  rw [compileSection_eq, ends_andThen_iff fun _ => ends_compileMutated_iff]
  exact and_iff_right hvisit

/-- One step ends exactly if what is compiled directly inside does, where that does not depend on
the sections around. -/
theorem ends_step_iff {p : Json → Prop} (h : ∀ inner scope, (recur inner scope).Ends ↔ p inner) :
    (c.step recur value scope).Ends ↔ ∀ inner ∈ c.inside value, p inner := by
  have hsection : ∀ own : String × List (String × Json),
      (c.compileSection recur own.2 own.1 scope).Ends ↔
        ∀ inner ∈ c.valuesOf (c.mutated own.1 own.2), p inner := by
    intro own
    rw [ends_compileSection_iff]
    exact forall₂_congr fun inner _ => h inner _
  cases value with
  | array items =>
    rw [step_array, ends_andThen_done_iff, ends_forEach_iff]
    exact forall₂_congr fun item _ => h item scope
  | object fields =>
    simp only [inside, List.forall_mem_flatMap, Section.ofValue]
    cases hname : Section.name? fields with
    | some name =>
      rw [step_named hname, List.forall_mem_singleton]
      exact hsection (name, fields)
    | none =>
      rw [step_entries hname, ends_andThen_done_iff, ends_forEach_iff, List.forall_mem_map]
      exact forall₂_congr fun entry _ => hsection (_, Section.ofEntry entry.1 entry.2)
  | _ =>
    refine iff_of_true ?_ (by simp [inside, Section.ofValue])
    unfold step
    split <;> exact ends_done _

/-- Chains of values that are compiled inside each other are no longer than the budget. -/
def EndsWithin (c : Compiler) : Nat → Json → Prop
  | 0, _ => False
  | budget + 1, value => ∀ inner ∈ c.inside value, c.EndsWithin budget inner

/-- A budget suffices exactly if chains are no longer than it is, whatever the sections around. -/
theorem ends_build_iff {budget : Nat} :
    (c.build budget value scope).Ends ↔ c.EndsWithin budget value := by
  induction budget generalizing value scope with
  | zero => exact iff_of_false (fun ⟨_, _, hrun⟩ => nomatch hrun) id
  | succ budget ih => exact ends_step_iff fun inner scope => ih

/-! ## Values inside themselves -/

namespace EndsWithin

variable {budget : Nat}

/-- What is compiled inside needs less. -/
theorem of_transGen (h : c.EndsWithin budget value)
    (hinside : Relation.TransGen c.Inside value inner) :
    ∃ less < budget, c.EndsWithin less inner := by
  induction hinside with
  | single hstep =>
    cases budget with
    | zero => exact h.elim
    | succ budget => exact ⟨budget, Nat.lt_succ_self _, h _ hstep⟩
  | tail _ hstep ih =>
    obtain ⟨less, hless, hends⟩ := ih
    cases less with
    | zero => exact hends.elim
    | succ less => exact ⟨less, by omega, hends _ hstep⟩

/-- Compiling does not end for a value that is compiled inside itself. -/
theorem not_inside_itself (h : c.EndsWithin budget value) :
    ¬ Relation.TransGen c.Inside value value := by
  intro hinside
  induction budget using Nat.strongRecOn with
  | _ budget ih =>
    obtain ⟨less, hless, hends⟩ := h.of_transGen hinside
    exact ih less hless hends

/-- Nor for a value inside of which such a value is compiled. -/
theorem neverInsideItself (h : c.EndsWithin budget value) : c.NeverInsideItself value := by
  intro inner hreaches
  rcases Relation.reflTransGen_iff_eq_or_transGen.1 hreaches with rfl | hinside
  · exact h.not_inside_itself
  · obtain ⟨less, -, hends⟩ := h.of_transGen hinside
    exact hends.not_inside_itself

end EndsWithin

/-- Where only certain values are compiled inside a value, and none of these inside itself,
compiling ends.  The induction is on the values that have not been met yet on the way. -/
theorem endsWithin_of_mem {values : List Json}
    (hvalues : ∀ inner, c.Reaches value inner → inner ∈ values)
    (hacyclic : c.NeverInsideItself value) :
    c.EndsWithin (values.length + 1) value := by
  suffices hmet : ∀ (left : Nat) (met : List Json) (inner : Json), met.Nodup → met ⊆ values →
      values.length = met.length + left → c.Reaches value inner →
      (∀ earlier ∈ met, Relation.TransGen c.Inside earlier inner) →
      c.EndsWithin (left + 1) inner from
    hmet values.length [] value List.nodup_nil (List.nil_subset _) (Nat.zero_add _).symm .refl
      (by simp)
  intro left
  induction left with
  | zero =>
    intro met inner hnodup hsub hlength hreaches hmet
    -- All values have been met already, but the value at hand is not among them.
    have hfresh : inner ∉ met := fun hin => hacyclic inner hreaches (hmet inner hin)
    have hle : (inner :: met).length ≤ values.length :=
      (List.subperm_of_subset (List.nodup_cons.2 ⟨hfresh, hnodup⟩)
        (List.cons_subset.2 ⟨hvalues inner hreaches, hsub⟩)).length_le
    rw [List.length_cons] at hle
    omega
  | succ left ih =>
    intro met inner hnodup hsub hlength hreaches hmet next hnext
    have hfresh : inner ∉ met := fun hin => hacyclic inner hreaches (hmet inner hin)
    refine ih (inner :: met) next (List.nodup_cons.2 ⟨hfresh, hnodup⟩)
      (List.cons_subset.2 ⟨hvalues inner hreaches, hsub⟩) ?_ (hreaches.tail hnext) ?_
    · rw [List.length_cons]
      omega
    · intro earlier hearlier
      rcases List.mem_cons.1 hearlier with rfl | hin
      · exact .single hnext
      · exact (hmet earlier hin).tail hnext

end Compiler

end ViewSchema
