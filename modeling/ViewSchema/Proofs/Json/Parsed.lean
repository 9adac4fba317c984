import ViewSchema.Proofs.Json.RoundTrip
import ViewSchema.Proofs.Number.Text

/-!
# Values that are read

What holds of every value that is read from a text, whatever the text: objects have each name
once, and numbers are integers or doubles as they are built.

Main results:

- Theorem `Json.Reader.canonical_numberLiteral`: the numbers that are read.
- Theorem `Json.regular_of_parse?`: a value that is read is regular.
- Theorem `Json.allNumbers_of_parse?`: its numbers are canonical.
-/

namespace ViewSchema

namespace Json

namespace Reader

open Number (Canonical)

variable {negative : Bool} {significand : Nat} {scale : Int} {cs rest : List Char} {n : Number}

/-! ## Numbers -/

/-- Scaling a significand gives a canonical double. -/
theorem canonical_double (h : double negative significand scale cs = some (n, rest)) :
    Canonical n := by
  obtain ⟨d, hd, heq⟩ := Option.map_eq_some_iff.1 h
  cases heq
  exact Double.canonical_ofScaled hd

/-- A literal with an exponent is canonical. -/
theorem canonical_exponentPart (h : exponentPart negative significand scale cs = some (n, rest)) :
    Canonical n := by
  rw [exponentPart_eq] at h
  split at h
  · cases h
  · split at h
    · split at h
      · cases h
      · cases h
        exact .zero negative
    · exact canonical_double h

/-- So is one that may end or go on with an exponent. -/
theorem canonical_scaledEnd (h : scaledEnd negative significand scale cs = some (n, rest)) :
    Canonical n := by
  unfold scaledEnd at h
  split at h
  · exact canonical_exponentPart h
  · exact canonical_exponentPart h
  · exact canonical_double h

/-- A literal with a fraction is canonical. -/
theorem canonical_fractionPart (h : fractionPart negative significand scale cs = some (n, rest)) :
    Canonical n := by
  unfold fractionPart at h
  split at h
  · split at h
    · exact canonical_scaledEnd h
    · cases h
  · cases h

/-- A literal without both is canonical: an integer that fits, or else a double. -/
theorem canonical_integer (negative : Bool) (significand : Nat) :
    Canonical (integer negative significand) := by
  unfold integer
  split
  · trivial
  · split
    · exact (Double.canonical_ofNat significand).withSign true
    · trivial

/-- Whatever follows the whole part of a literal, the number is canonical. -/
theorem canonical_afterWhole (h : afterWhole negative significand cs = some (n, rest)) :
    Canonical n := by
  unfold afterWhole at h
  split at h
  · exact canonical_fractionPart h
  · exact canonical_exponentPart h
  · exact canonical_exponentPart h
  · cases h
    exact canonical_integer negative significand

/-- The same for a whole part whose digits exceed the significand. -/
theorem canonical_afterLongWhole
    (h : afterLongWhole negative significand scale cs = some (n, rest)) : Canonical n := by
  unfold afterLongWhole at h
  split at h
  · exact canonical_fractionPart h
  · exact canonical_scaledEnd h

/-- Every literal behind its sign is read as a canonical number. -/
theorem canonical_unsignedNumber (h : unsignedNumber negative cs = some (n, rest)) :
    Canonical n := by
  unfold unsignedNumber at h
  split at h
  · split at h
    · split at h
      · cases h
      · exact canonical_afterWhole h
    · exact canonical_afterWhole h
  · split at h
    · dsimp only at h
      split at h
      · exact canonical_afterWhole h
      · exact canonical_afterLongWhole h
    · cases h
  · cases h

/-- Every number that is read is canonical. -/
theorem canonical_numberLiteral (h : numberLiteral cs = some (n, rest)) : Canonical n := by
  unfold numberLiteral at h
  split at h <;> exact canonical_unsignedNumber h

/-! ## Values -/

/-- A property of all numbers that are read. -/
def AllLiterals (P : Number → Prop) : Prop :=
  ∀ cs n rest, numberLiteral cs = some (n, rest) → P n

section Values

variable {P : Number → Prop}

mutual

/-- What holds of every literal holds of all numbers in a value that is read. -/
theorem allNumbers_value (hP : AllLiterals P) :
    ∀ {fuel depth : Nat} {cs rest : List Char} {v : Json},
      value fuel depth cs = some (v, rest) → v.AllNumbers P
  | 0, _, _, _, _, h => by simp [value] at h
  | fuel + 1, depth, cs, rest, v, h => by
    rw [value] at h
    split at h
    -- No number stands in a literal name or a string.
    case h_1 | h_2 | h_3 | h_4 =>
      obtain ⟨_, _, heq⟩ := Option.map_eq_some_iff.1 h
      cases heq
      trivial
    · cases depth with
      | zero => cases h
      | succ depth =>
        dsimp only at h
        split at h
        · cases h
          trivial
        · obtain ⟨_, hitems, heq⟩ := Option.map_eq_some_iff.1 h
          cases heq
          exact allNumbers_items hP hitems
    · cases depth with
      | zero => cases h
      | succ depth =>
        dsimp only at h
        split at h
        · cases h
          trivial
        · obtain ⟨_, hmembers, heq⟩ := Option.map_eq_some_iff.1 h
          cases heq
          exact allNumbers_members hP hmembers
    · obtain ⟨_, hnumber, heq⟩ := Option.map_eq_some_iff.1 h
      cases heq
      exact hP _ _ _ hnumber

/-- What holds of every literal holds of the numbers in the items that are read. -/
theorem allNumbers_items (hP : AllLiterals P) :
    ∀ {fuel depth : Nat} {cs rest : List Char} {xs : List Json},
      items fuel depth cs = some (xs, rest) → AllNumbersItems P xs
  | 0, _, _, _, _, h => by simp [items] at h
  | fuel + 1, depth, cs, rest, xs, h => by
    rw [items] at h
    split at h
    · cases h
    rename_i hfirst
    have hx := allNumbers_value hP hfirst
    split at h
    · obtain ⟨_, hitems, heq⟩ := Option.map_eq_some_iff.1 h
      cases heq
      exact ⟨hx, allNumbers_items hP hitems⟩
    · cases h
      exact ⟨hx, trivial⟩
    · cases h

/-- What holds of every literal holds of the numbers in the members that are read. -/
theorem allNumbers_members (hP : AllLiterals P) :
    ∀ {fuel depth : Nat} {cs rest : List Char} {fields : List (String × Json)},
      members fuel depth cs = some (fields, rest) → AllNumbersFields P fields
  | 0, _, _, _, _, h => by simp [members] at h
  | fuel + 1, depth, cs, rest, fields, h => by
    rw [members] at h
    split at h
    · split at h
      · cases h
      split at h
      · split at h
        · cases h
        rename_i hfirst
        have hx := allNumbers_value hP hfirst
        split at h
        · obtain ⟨_, hmembers, heq⟩ := Option.map_eq_some_iff.1 h
          cases heq
          exact ⟨hx, allNumbers_members hP hmembers⟩
        · cases h
          exact ⟨hx, trivial⟩
        · cases h
      · cases h
    · cases h

end

end Values

end Reader

/-! ## Repeated names -/

mutual

/-- Merging repeated names makes a value regular. -/
theorem regular_distinct : ∀ v : Json, v.distinct.Regular
  | null | bool _ | number _ | string _ => trivial
  | array items => by
    rw [distinct, regular_array_iff]
    exact regular_distinctItems items
  | object fields => by
    rw [distinct, regular_object_iff]
    refine ⟨Fields.distinct_ofList _, ?_⟩
    intro field hfield
    rcases Fields.mem_setAll hfield with hnone | ⟨other, hother, heq⟩
    · cases hnone
    · exact heq ▸ regular_distinctFields fields other hother

/-- Items are made regular one by one. -/
theorem regular_distinctItems : ∀ items : List Json, ∀ x ∈ distinctItems items, x.Regular
  | [] => by simp [distinctItems]
  | x :: xs => by
    rw [distinctItems, List.forall_mem_cons]
    exact ⟨regular_distinct x, regular_distinctItems xs⟩

/-- Fields are made regular one by one. -/
theorem regular_distinctFields :
    ∀ fields : List (String × Json), ∀ f ∈ distinctFields fields, f.2.Regular
  | [] => by simp [distinctFields]
  | (_, x) :: fs => by
    rw [distinctFields, List.forall_mem_cons]
    exact ⟨regular_distinct x, regular_distinctFields fs⟩

end

mutual

/-- It leaves no other numbers. -/
theorem AllNumbers.distinct {P : Number → Prop} :
    ∀ {v : Json}, v.AllNumbers P → v.distinct.AllNumbers P
  | null, _ | bool _, _ | string _, _ => trivial
  | number _, h => h
  | array _, h => AllNumbersItems.distinct h
  | object _, h => by
    rw [Json.distinct, AllNumbers, allNumbersFields_iff]
    intro field hfield
    rcases Fields.mem_setAll hfield with hnone | ⟨other, hother, heq⟩
    · cases hnone
    · exact heq ▸ allNumbersFields_iff.1 (AllNumbersFields.distinct h) other hother

/-- Making items regular brings in no numbers. -/
theorem AllNumbersItems.distinct {P : Number → Prop} :
    ∀ {items : List Json}, AllNumbersItems P items → AllNumbersItems P (distinctItems items)
  | [], _ => trivial
  | _ :: _, h => ⟨AllNumbers.distinct h.1, AllNumbersItems.distinct h.2⟩

/-- Leaving out repeated fields brings in no numbers. -/
theorem AllNumbersFields.distinct {P : Number → Prop} :
    ∀ {fields : List (String × Json)}, AllNumbersFields P fields →
      AllNumbersFields P (distinctFields fields)
  | [], _ => trivial
  | _ :: _, h => ⟨AllNumbers.distinct h.1, AllNumbersFields.distinct h.2⟩

end

/-! ## Texts -/

variable {source : String} {v : Json}

/-- A value that is read repeats no names. -/
theorem regular_of_parse? (h : parse? source = some v) : v.Regular := by
  obtain ⟨w, -, rfl⟩ := Option.map_eq_some_iff.1 h
  exact regular_distinct w

/-- Its numbers are integers, and doubles as they are built. -/
theorem allNumbers_of_parse? (h : parse? source = some v) : v.AllNumbers Number.Canonical := by
  obtain ⟨w, hw, rfl⟩ := Option.map_eq_some_iff.1 h
  refine AllNumbers.distinct ?_
  unfold parseAsWritten? at hw
  dsimp only at hw
  split at hw
  · rename_i hvalue
    split at hw
    · cases hw
      exact Reader.allNumbers_value (fun _ _ _ => Reader.canonical_numberLiteral) hvalue
    · cases hw
  · cases hw

end Json

end ViewSchema
