/-!
# Compilations

The result of compiling a schema: it may not end within its budget, and it lists
the sections it visits in the order in which it visits them.

Main definitions:

- `Compilation` with its sequencing; `Compilation.visit` lists a section.
- `Compilation.value?` and `Compilation.visited` are the two views of a result.
-/

namespace ViewSchema

/-- A result with the names of the sections visited on the way; `none` when the
budget does not suffice. -/
structure Compilation (α : Type) where
  run? : Option (α × List String)

namespace Compilation

variable {α β : Type}

/-- The result, if compiling ended. -/
def value? (c : Compilation α) : Option α := c.run?.map Prod.fst

/-- The sections visited. -/
def visited (c : Compilation α) : List String := (c.run?.map Prod.snd).getD []

/-- The budget does not suffice. -/
def exhausted : Compilation α := ⟨none⟩

/-- A result without visits. -/
def done (a : α) : Compilation α := ⟨some (a, [])⟩

/-- Visit one section. -/
def visit (name : String) : Compilation Unit := ⟨some ((), [name])⟩

/-- Go on with a result. -/
def andThen (c : Compilation α) (f : α → Compilation β) : Compilation β :=
  ⟨c.run?.bind fun (a, before) => (f a).run?.map fun (b, after) => (b, before ++ after)⟩

instance : Monad Compilation where
  pure := done
  bind := andThen

/-- Compile the members of a list in order. -/
def forEach (f : α → Compilation β) : List α → Compilation (List β)
  | [] => done []
  | x :: xs => andThen (f x) fun y => andThen (forEach f xs) fun ys => done (y :: ys)

@[simp] theorem run?_done (a : α) : (done a).run? = some (a, []) := rfl

@[simp] theorem run?_visit (name : String) : (visit name).run? = some ((), [name]) := rfl

@[simp] theorem bind_eq_andThen (c : Compilation α) (f : α → Compilation β) :
    c >>= f = c.andThen f := rfl

@[simp] theorem pure_eq_done (a : α) : (pure a : Compilation α) = done a := rfl

/-- Results of a sequence are results of its two parts. -/
theorem run?_andThen_eq_some {c : Compilation α} {f : α → Compilation β} {b : β}
    {names : List String} :
    (c.andThen f).run? = some (b, names) ↔
      ∃ a before after, c.run? = some (a, before) ∧ (f a).run? = some (b, after) ∧
        names = before ++ after := by
  unfold andThen
  constructor
  · intro h
    rcases hc : c.run? with _ | ⟨a, before⟩
    · simp [hc] at h
    · simp only [hc, Option.bind_some] at h
      rcases hf : (f a).run? with _ | ⟨b', after⟩
      · simp [hf] at h
      · simp only [hf, Option.map_some, Option.some.injEq, Prod.mk.injEq] at h
        obtain ⟨rfl, rfl⟩ := h
        exact ⟨a, before, after, rfl, hf, rfl⟩
  · rintro ⟨a, before, after, hc, hf, rfl⟩
    simp [hc, hf]

end Compilation

end ViewSchema
