import ViewSchema.Proofs.Compile.Termination
import ViewSchema.Proofs.Compile.TextFidelity

/-!
# Budgets and scopes do not matter

Compiling with a larger budget, and in a scope that gives leaves the same texts, ends with
the same result whenever the smaller budget suffices.  So a value has one compiled node in
each scope, without reference to a budget.

Main results:

- Definition `Compilation.ExtendedBy`: ending with the same result, and possibly more often.
- Theorem `Compiler.build_extendedBy`: larger budgets extend smaller ones.
- Theorem `Compiler.nodeOf_eq`: the compiled node of a value, from any run that ends.
-/

namespace ViewSchema

namespace Compilation

variable {α β : Type}

/-- One compilation ends as the other one does, whenever that one ends. -/
def ExtendedBy (p q : Compilation α) : Prop := ∀ r, p.run? = some r → q.run? = some r

theorem ExtendedBy.refl (p : Compilation α) : p.ExtendedBy p := fun _ h => h

/-- Sequences extend part by part. -/
theorem ExtendedBy.andThen {p q : Compilation α} {f g : α → Compilation β}
    (h : p.ExtendedBy q) (hfg : ∀ a, (f a).ExtendedBy (g a)) :
    (p.andThen f).ExtendedBy (q.andThen g) := by
  rintro ⟨b, names⟩ hrun
  obtain ⟨a, before, after, hfirst, hsecond, rfl⟩ := run?_andThen_eq_some.1 hrun
  exact run?_andThen_eq_some.2 ⟨a, before, after, h _ hfirst, hfg a _ hsecond, rfl⟩

/-- Compiled lists extend item by item. -/
theorem extendedBy_forEach {f g : α → Compilation β} (h : ∀ a, (f a).ExtendedBy (g a))
    (xs : List α) : (forEach f xs).ExtendedBy (forEach g xs) := by
  induction xs with
  | nil => exact .refl _
  | cons x xs ih => exact (h x).andThen fun y => ih.andThen fun ys => .refl _

end Compilation

namespace Compiler

open Compilation

variable {c : Compiler} {recur recur' : Json → Scope → Compilation Node} {s t : Scope}

/-- The second way to compile what stands inside extends the first one, in scopes that give
leaves the same texts. -/
def RecurExtends (c : Compiler) (recur recur' : Json → Scope → Compilation Node) : Prop :=
  ∀ value s t, c.SameTexts s t → (recur value s).ExtendedBy (recur' value t)

/-- Leaves look the same in two scopes with the same innermost section. -/
theorem sameTexts_of_enter (s t : Scope) (name : String) (fields : List (String × Json)) :
    c.SameTexts (s.enter name fields) (t.enter name fields) := fun _ => rfl

namespace RecurExtends

theorem buildNamed (h : c.RecurExtends recur recur') (hscope : c.SameTexts s t)
    (fields : List (String × Json)) :
    (Compiler.buildNamed recur s fields).ExtendedBy (Compiler.buildNamed recur' t fields) := by
  refine extendedBy_forEach (fun field => ?_) fields
  exact (h field.2 s t hscope).andThen fun node => .refl _

theorem sectionChildren (h : c.RecurExtends recur recur') (hscope : c.SameTexts s t)
    (fields : List (String × Json)) :
    (c.sectionChildren recur fields s).ExtendedBy (c.sectionChildren recur' fields t) := by
  cases hcontent : fields.lookup "content" with
  | none =>
    simp only [Compiler.sectionChildren, hcontent]
    exact .refl _
  | some content =>
    simp only [Compiler.sectionChildren, hcontent]
    exact (h content s t hscope).andThen fun node => .refl _

theorem compileSection (h : c.RecurExtends recur recur') (fields : List (String × Json))
    (name : String) :
    (c.compileSection recur fields name s).ExtendedBy
      (c.compileSection recur' fields name t) := by
  have hscope := fun fields => c.sameTexts_of_enter s t name fields
  refine (ExtendedBy.refl (Compilation.visit name)).andThen fun _ => ?_
  dsimp only
  split
  · exact .refl _
  · refine (h.buildNamed (hscope _) _).andThen fun slots => ?_
    refine (h.buildNamed (hscope _) _).andThen fun labels => ?_
    split
    · exact .refl _
    · exact (h.sectionChildren (hscope _) _).andThen fun children => .refl _

/-- One step extends another one when the steps inside do. -/
theorem step (h : c.RecurExtends recur recur') :
    c.RecurExtends (c.step recur) (c.step recur') := by
  intro value s t hscope
  cases hfalsy : value.isFalsy with
  | true =>
    rw [step_falsy hfalsy, step_falsy hfalsy]
    exact .refl _
  | false =>
    cases value with
    | array items =>
      rw [step_array, step_array]
      exact (extendedBy_forEach (fun item => h item s t hscope) items).andThen fun _ => .refl _
    | object fields =>
      cases hname : Section.name? fields with
      | some name =>
        rw [step_named hname, step_named hname]
        exact h.compileSection fields name
      | none =>
        rw [step_entries hname, step_entries hname]
        exact (extendedBy_forEach (fun entry => h.compileSection _ _) fields).andThen
          fun _ => .refl _
    | _ =>
      rw [step_leaf hfalsy rfl rfl, step_leaf hfalsy rfl rfl, leaf, leaf, hscope]
      exact .refl _

end RecurExtends

/-- Larger budgets extend smaller ones, in scopes that give leaves the same texts. -/
theorem build_extendedBy {budget budget' : Nat} (h : budget ≤ budget') :
    c.RecurExtends (c.build budget) (c.build budget') := by
  induction budget generalizing budget' with
  | zero =>
    intro value s t _ r hrun
    cases hrun
  | succ budget ih =>
    obtain ⟨budget', rfl⟩ := Nat.exists_eq_add_of_le' (Nat.lt_of_lt_of_le (Nat.succ_pos budget) h)
    exact (ih (Nat.le_of_succ_le_succ h)).step

/-- The compiled node of a value in a scope. -/
def nodeOf (c : Compiler) (value : Json) (scope : Scope) : Node :=
  (c.build (value.depth + 1) value scope).value?.getD .nothing

/-- Without overrides, every run that ends gives the node of the value, in any scope that
gives leaves the same texts. -/
theorem nodeOf_eq (hhook : ∀ name fields, c.mutate name fields = none) {budget : Nat}
    {value : Json} {node : Node} {names : List String} (hscope : c.SameTexts s t)
    (h : (c.build budget value s).run? = some (node, names)) : c.nodeOf value t = node := by
  obtain ⟨own, visited, hown⟩ := ends_build hhook (Nat.lt_succ_self value.depth) t
  have hlarge := build_extendedBy (Nat.le_max_left budget (value.depth + 1)) value s t hscope _ h
  have hsame := build_extendedBy (Nat.le_max_right budget (value.depth + 1)) value t t
    (fun _ => rfl) _ hown
  have heq : own = node := congrArg Prod.fst (Option.some.inj (hsame.symm.trans hlarge))
  rw [nodeOf, Compilation.value?, hown]
  exact heq

end Compiler

end ViewSchema
