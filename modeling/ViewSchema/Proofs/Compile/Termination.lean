import ViewSchema.Proofs.Compile.Section

/-!
# Compiling ends

Without overrides, every nested step of the compiler goes into a member of the value at
hand, so that a budget above the depth of a schema suffices to compile it.

Main results:

- Definition `Compilation.Ends`: the budget of a compilation suffices.
- Theorem `Compiler.ends_compileSection`: a section ends when what stands inside does.
- Theorem `Compiler.ends_build`: without overrides, a budget above the depth suffices.
-/

namespace ViewSchema

namespace Compilation

variable {α β : Type}

/-- The budget of a compilation suffices. -/
def Ends (c : Compilation α) : Prop := ∃ a names, c.run? = some (a, names)

theorem ends_done (a : α) : (done a).Ends := ⟨a, [], rfl⟩

/-- A sequence ends when both of its parts do. -/
theorem Ends.andThen {c : Compilation α} {f : α → Compilation β} (hc : c.Ends)
    (hf : ∀ a, (f a).Ends) : (c.andThen f).Ends := by
  obtain ⟨a, before, ha⟩ := hc
  obtain ⟨b, after, hb⟩ := hf a
  exact ⟨b, before ++ after, run?_andThen_eq_some.2 ⟨a, before, after, ha, hb, rfl⟩⟩

/-- A compiled list ends when each of its items does. -/
theorem ends_forEach {f : α → Compilation β} {xs : List α} (h : ∀ x ∈ xs, (f x).Ends) :
    (forEach f xs).Ends := by
  induction xs with
  | nil => exact ends_done []
  | cons x xs ih =>
    have htail := ih fun y hy => h y (List.mem_cons_of_mem _ hy)
    exact (h x List.mem_cons_self).andThen fun y => htail.andThen fun ys => ends_done (y :: ys)

end Compilation

namespace Section

variable {fields : List (String × Json)} {field : String × Json}

/-- Fields that are left after several were removed were there before. -/
theorem mem_of_mem_without {names : List String} (h : field ∈ without fields names) :
    field ∈ fields := by
  induction names generalizing fields with
  | nil => exact h
  | cons name rest ih =>
    have hstep : without fields (name :: rest) = without (Fields.swapRemove fields name) rest :=
      rfl
    rw [hstep] at h
    exact Fields.mem_of_mem_swapRemove (ih h)

/-- Fields picked out by name stand among the fields. -/
theorem mem_of_mem_present {names : List String} (h : field ∈ present fields names) :
    field ∈ fields := by
  obtain ⟨name, -, hfield⟩ := List.mem_filterMap.1 h
  obtain ⟨value, hvalue, rfl⟩ := Option.map_eq_some_iff.1 hfield
  exact Fields.mem_of_lookup hvalue

/-- The members of the section of an entry are nested no deeper than the entry. -/
theorem depth_le_of_mem_ofEntry {key : String} {entry : Json} (h : field ∈ ofEntry key entry) :
    field.2.depth ≤ entry.depth := by
  cases entry with
  | object fields =>
    rcases Fields.mem_setAll h with hname | ⟨other, hother, heq⟩
    · rw [List.mem_singleton.1 hname]
      simp only [Json.depth]
      omega
    · rw [heq]
      exact Nat.le_of_lt (Json.depth_lt_of_mem_object hother)
  | array items =>
    rcases List.mem_pair.1 h with rfl | rfl
    · simp [Json.depth]
    · exact Nat.le_refl _
  | _ =>
    rcases List.mem_pair.1 h with rfl | rfl
    · simp [Json.depth]
    · exact Nat.le_refl _

end Section

namespace Compiler

open Compilation

variable {c : Compiler} {recur : Json → Scope → Compilation Node} {fields : List (String × Json)}

/-- Without overrides, sections stay as they are. -/
theorem mutated_eq_self (h : ∀ name fields, c.mutate name fields = none) (name : String)
    (fields : List (String × Json)) : c.mutated name fields = fields := by
  rw [mutated, h]
  rfl

/-- Named values end when each value does. -/
theorem ends_buildNamed {scope : Scope} (h : ∀ field ∈ fields, (recur field.2 scope).Ends) :
    (buildNamed recur scope fields).Ends :=
  ends_forEach fun field hfield => (h field hfield).andThen fun node => ends_done (field.1, node)

/-- The children of a section end when its members do. -/
theorem ends_sectionChildren {scope : Scope}
    (h : ∀ field ∈ fields, (recur field.2 scope).Ends) :
    (c.sectionChildren recur fields scope).Ends := by
  cases hcontent : fields.lookup "content" with
  | none =>
    simp only [sectionChildren, hcontent]
    exact (ends_done []).andThen fun own => ends_done _
  | some content =>
    simp only [sectionChildren, hcontent]
    exact (h _ (Fields.mem_of_lookup hcontent)).andThen fun node =>
      (ends_done [node]).andThen fun own => ends_done _

/-- A section ends when the members of its mutation do. -/
theorem ends_compileSection {name : String} {scope : Scope}
    (h : ∀ field ∈ c.mutated name fields, ∀ scope, (recur field.2 scope).Ends) :
    (c.compileSection recur fields name scope).Ends := by
  have hvisit : (Compilation.visit name).Ends := ⟨(), [name], rfl⟩
  refine hvisit.andThen fun _ => ?_
  dsimp only
  split
  · exact ends_done _
  · refine (ends_buildNamed fun field hfield => ?_).andThen fun slots => ?_
    · exact h field (Section.mem_of_mem_without (Section.mem_of_mem_present hfield)) _
    refine (ends_buildNamed fun field hfield => ?_).andThen fun labels => ?_
    · exact h field (Section.mem_of_mem_present hfield) _
    split
    · exact (ends_done []).andThen fun children => ends_done _
    · exact (ends_sectionChildren fun field hfield => h field hfield _).andThen
        fun children => ends_done _

/-- One step ends when the members of the value do: its items, its fields, or the fields of
the sections that its entries stand for. -/
theorem ends_step (hhook : ∀ name fields, c.mutate name fields = none) {value : Json}
    {scope : Scope} (h : ∀ inner : Json, inner.depth < value.depth → ∀ scope,
      (recur inner scope).Ends) : (c.step recur value scope).Ends := by
  cases hfalsy : value.isFalsy with
  | true => rw [step_falsy hfalsy]; exact ends_done _
  | false =>
    cases value with
    | array items =>
      rw [step_array]
      exact (ends_forEach fun item hitem =>
        h item (Json.depth_lt_of_mem_array hitem) scope).andThen fun nodes => ends_done _
    | object fields =>
      cases hname : Section.name? fields with
      | some name =>
        rw [step_named hname]
        refine ends_compileSection fun field hfield scope => ?_
        rw [mutated_eq_self hhook] at hfield
        exact h field.2 (Json.depth_lt_of_mem_object hfield) scope
      | none =>
        rw [step_entries hname]
        refine (ends_forEach fun entry hentry => ?_).andThen fun nodes => ends_done _
        refine ends_compileSection fun field hfield scope => ?_
        rw [mutated_eq_self hhook] at hfield
        have hle := Section.depth_le_of_mem_ofEntry hfield
        have hlt := Json.depth_lt_of_mem_object hentry
        exact h field.2 (Nat.lt_of_le_of_lt hle hlt) scope
    | _ => rw [step_leaf hfalsy rfl rfl]; exact ends_done _

/-- Without overrides, a budget above the depth of a value suffices. -/
theorem ends_build (hhook : ∀ name fields, c.mutate name fields = none) {budget : Nat}
    {value : Json} (h : value.depth < budget) (scope : Scope) :
    (c.build budget value scope).Ends := by
  induction budget generalizing value scope with
  | zero => omega
  | succ budget ih => exact ends_step hhook fun inner hinner scope => ih (by omega) scope

end Compiler

end ViewSchema
