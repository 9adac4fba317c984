import ViewSchema.Json.Value

/-!
# Equality of values

The comparison of values is equality, so that equations between values can be decided.

Main results:

- Theorem `Json.beq_iff`: values compare equal exactly when they are equal.
-/

namespace ViewSchema

namespace Json

mutual

/-- Values compare equal exactly when they are equal. -/
theorem beq_iff : ∀ {x y : Json}, beq x y = true ↔ x = y
  | .null, y => by cases y <;> simp [beq]
  | .bool a, y => by cases y <;> simp [beq]
  | .number a, y => by cases y <;> simp [beq]
  | .string a, y => by cases y <;> simp [beq]
  | .array xs, y => by
    cases y with
    | array ys => simp [beq, beqItems_iff]
    | _ => simp [beq]
  | .object xs, y => by
    cases y with
    | object ys => simp [beq, beqFields_iff]
    | _ => simp [beq]

theorem beqItems_iff : ∀ {xs ys : List Json}, beqItems xs ys = true ↔ xs = ys
  | [], ys => by cases ys <;> simp [beqItems]
  | x :: xs, ys => by
    cases ys with
    | nil => simp [beqItems]
    | cons y ys => simp [beqItems, beq_iff, beqItems_iff]

theorem beqFields_iff : ∀ {xs ys : List (String × Json)}, beqFields xs ys = true ↔ xs = ys
  | [], ys => by cases ys <;> simp [beqFields]
  | (a, x) :: xs, ys => by
    cases ys with
    | nil => simp [beqFields]
    | cons y ys =>
      obtain ⟨b, y⟩ := y
      simp [beqFields, beq_iff, beqFields_iff, and_assoc]

end

instance : LawfulBEq Json where
  eq_of_beq h := beq_iff.1 h
  rfl := beq_iff.2 rfl

instance : DecidableEq Json := fun _ _ => decidable_of_iff _ beq_iff

end Json

end ViewSchema
