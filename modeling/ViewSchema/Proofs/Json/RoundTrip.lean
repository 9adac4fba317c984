import ViewSchema.Proofs.Json.Literals
import ViewSchema.Proofs.Json.Regular

/-!
# Reading values back

A value that is written, with any blanks between its parts, is read back as the same value.
The indented text is one way to place the blanks.

Main results:

- Definition `Json.laidOut`: the text of a value in a spacing.
- Theorem `Json.value_laidOut`: a written value is read back, whatever follows it.
- Theorem `Json.parse?_pretty`: so is the indented text of a value.
-/

namespace ViewSchema

namespace Json

open Reader (isSpace skipSpace)

/-! ## Layouts -/

/-- Blanks between the parts of a text: those in front of an entry or of the closing bracket,
at a depth, and those behind a colon. -/
structure Spacing where
  gap : Nat → List Char
  mark : List Char
  isSpace_gap : ∀ depth, ∀ c ∈ gap depth, isSpace c = true
  isSpace_mark : ∀ c ∈ mark, isSpace c = true

/-- An entry a line, indented by two blanks. -/
def Spacing.indented : Spacing where
  gap depth := '\n' :: List.replicate (2 * depth) ' '
  mark := [' ']
  isSpace_gap := by
    intro depth c hc
    rcases List.mem_cons.1 hc with rfl | hblank
    · rfl
    · rw [List.eq_of_mem_replicate hblank]
      rfl
  isSpace_mark := by simp [isSpace]

mutual

/-- The text of a value at a depth. -/
def laidOut (spacing : Spacing) (depth : Nat) : Json → List Char
  | null => ['n', 'u', 'l', 'l']
  | bool b => if b then ['t', 'r', 'u', 'e'] else ['f', 'a', 'l', 's', 'e']
  | number n => n.text.toList
  | string s => (quoted s).toList
  | array [] => ['[', ']']
  | array (x :: xs) =>
    '[' :: (spacing.gap (depth + 1) ++ laidOutItems spacing (depth + 1) (x :: xs) ++
      spacing.gap depth ++ [']'])
  | object [] => ['\x7b', '\x7d']
  | object (f :: fs) =>
    '\x7b' :: (spacing.gap (depth + 1) ++ laidOutFields spacing (depth + 1) (f :: fs) ++
      spacing.gap depth ++ ['\x7d'])

def laidOutItems (spacing : Spacing) (depth : Nat) : List Json → List Char
  | [] => []
  | [x] => laidOut spacing depth x
  | x :: y :: ys =>
    laidOut spacing depth x ++ ',' :: (spacing.gap depth ++ laidOutItems spacing depth (y :: ys))

def laidOutFields (spacing : Spacing) (depth : Nat) : List (String × Json) → List Char
  | [] => []
  | [(name, x)] => (quoted name).toList ++ ':' :: (spacing.mark ++ laidOut spacing depth x)
  | (name, x) :: f :: fs =>
    (quoted name).toList ++ ':' :: (spacing.mark ++ laidOut spacing depth x ++
      ',' :: (spacing.gap depth ++ laidOutFields spacing depth (f :: fs)))

end

/-! ## What can be read back -/

mutual

/-- Levels of brackets in a value. -/
def nesting : Json → Nat
  | array items => 1 + nestingOfItems items
  | object fields => 1 + nestingOfFields fields
  | _ => 0

def nestingOfItems : List Json → Nat
  | [] => 0
  | x :: xs => max (nesting x) (nestingOfItems xs)

def nestingOfFields : List (String × Json) → Nat
  | [] => 0
  | (_, x) :: xs => max (nesting x) (nestingOfFields xs)

end

mutual

/-- All numbers in a value are of some kind. -/
def AllNumbers (P : Number → Prop) : Json → Prop
  | number n => P n
  | array items => AllNumbersItems P items
  | object fields => AllNumbersFields P fields
  | _ => True

def AllNumbersItems (P : Number → Prop) : List Json → Prop
  | [] => True
  | x :: xs => AllNumbers P x ∧ AllNumbersItems P xs

def AllNumbersFields (P : Number → Prop) : List (String × Json) → Prop
  | [] => True
  | (_, x) :: xs => AllNumbers P x ∧ AllNumbersFields P xs

end

/-- The texts of all numbers in a value are read as those numbers. -/
abbrev NumbersReadBack (v : Json) : Prop := v.AllNumbers Number.ReadsBack

/-! ## Reading -/

open Reader

variable {spacing : Spacing} {cs rest : List Char}

/-- Blanks are skipped. -/
theorem skipSpace_append {blanks : List Char} (h : ∀ c ∈ blanks, isSpace c = true)
    (cs : List Char) : skipSpace (blanks ++ cs) = skipSpace cs :=
  List.dropWhile_append_of_pos h

/-- Nothing is skipped in front of anything else. -/
theorem skipSpace_cons {c : Char} (h : isSpace c = false) (cs : List Char) :
    skipSpace (c :: cs) = c :: cs :=
  List.dropWhile_cons_of_neg (by simp [h])

/-- A number ends where a blank or a delimiter stands. -/
theorem endsNumber_cons {c : Char} (h : isSpace c = true ∨ c = ',' ∨ c = ']' ∨ c = '}')
    (cs : List Char) : EndsNumber (c :: cs) := by
  rintro d ⟨rfl⟩
  simp only [isSpace, Bool.or_eq_true, beq_iff_eq] at h
  rcases h with ((((rfl | rfl) | rfl) | rfl) | rfl | rfl | rfl) <;> decide

/-- A number ends in front of blanks and a delimiter. -/
theorem endsNumber_append {blanks : List Char} (h : ∀ c ∈ blanks, isSpace c = true) {c : Char}
    (hc : c = ',' ∨ c = ']' ∨ c = '}') (cs : List Char) :
    EndsNumber (blanks ++ c :: cs) := by
  cases blanks with
  | nil => exact endsNumber_cons (.inr hc) cs
  | cons b blanks => exact endsNumber_cons (.inl (h b List.mem_cons_self)) _

/-- The text of a number begins with a sign or a digit. -/
theorem exists_cons_of_numberLiteral {n : Number} (h : numberLiteral cs = some (n, rest)) :
    ∃ c tail, cs = c :: tail ∧ (c = '-' ∨ c.isDigit = true) := by
  cases cs with
  | nil => cases h
  | cons c tail =>
    refine ⟨c, tail, rfl, ?_⟩
    by_cases hsign : c = '-'
    · exact .inl hsign
    · right
      have hunsigned : unsignedNumber false (c :: tail) = some (n, rest) := by
        unfold numberLiteral at h
        split at h
        · rename_i heq
          cases heq
          exact absurd rfl hsign
        · exact h
      by_cases hzero : c = '0'
      · exact hzero ▸ rfl
      · rw [unsignedNumber_cons hzero] at hunsigned
        split at hunsigned
        · assumption
        · cases hunsigned

/-- A sign or a digit is neither a blank nor a closing bracket. -/
theorem not_isSpace_of_number {c : Char} (h : c = '-' ∨ c.isDigit = true) :
    isSpace c = false ∧ c ≠ ']' := by
  rcases h with rfl | hdigit
  · decide
  · constructor
    · rw [Bool.eq_false_iff]
      intro hblank
      simp only [isSpace, Bool.or_eq_true, beq_iff_eq] at hblank
      rcases hblank with ((rfl | rfl) | rfl) | rfl <;> exact absurd hdigit (by decide)
    · rintro rfl
      exact absurd hdigit (by decide)

/-- A number is read back, whatever follows it. -/
theorem value_number {n : Number} (hn : n.ReadsBack) (hrest : EndsNumber rest) (fuel depth : Nat)
    {blanks : List Char} (hblanks : ∀ c ∈ blanks, isSpace c = true) :
    value (fuel + 1) depth (blanks ++ (n.text.toList ++ rest)) = some (number n, rest) := by
  obtain ⟨c, tail, hcons, hhead⟩ := exists_cons_of_numberLiteral hn
  have hread := numberLiteral_append hrest hn
  rw [hcons, List.cons_append, List.nil_append] at hread
  have hspace := (not_isSpace_of_number hhead).1
  rw [value, skipSpace_append hblanks, hcons, List.cons_append, skipSpace_cons hspace]
  -- A sign or a digit begins no other kind of value.
  split
  all_goals first
    | (rename_i heq
       cases heq
       rcases hhead with hsign | hdigit
       · exact absurd hsign (by decide)
       · exact absurd hdigit (by decide))
    | (rw [hread]
       rfl)

/-- A written value begins with neither a blank nor a closing bracket. -/
theorem exists_cons_laidOut (spacing : Spacing) (place : Nat) {v : Json}
    (hv : v.NumbersReadBack) :
    ∃ c tail, laidOut spacing place v = c :: tail ∧ isSpace c = false ∧ c ≠ ']' := by
  cases v with
  | null => exact ⟨_, _, rfl, by decide, by decide⟩
  | bool b => cases b <;> exact ⟨_, _, rfl, by decide, by decide⟩
  | number n =>
    obtain ⟨c, tail, hcons, hhead⟩ := exists_cons_of_numberLiteral hv
    exact ⟨c, tail, hcons, not_isSpace_of_number hhead⟩
  | string s => exact ⟨_, _, toList_quoted s, by decide, by decide⟩
  | array items => cases items <;> exact ⟨_, _, rfl, by decide, by decide⟩
  | object fields => cases fields <;> exact ⟨_, _, rfl, by decide, by decide⟩

/-- So do written items. -/
theorem exists_cons_laidOutItems (spacing : Spacing) (place : Nat) {x : Json} (xs : List Json)
    (hx : x.NumbersReadBack) :
    ∃ c tail, laidOutItems spacing place (x :: xs) = c :: tail ∧ isSpace c = false ∧ c ≠ ']' := by
  obtain ⟨c, tail, hcons, hhead⟩ := exists_cons_laidOut spacing place hx
  cases xs with
  | nil => exact ⟨c, tail, hcons, hhead⟩
  | cons y ys => exact ⟨c, _, by rw [laidOutItems, hcons, List.cons_append], hhead⟩

/-- Written members begin with a quote. -/
theorem exists_cons_laidOutFields (spacing : Spacing) (place : Nat) (f : String × Json)
    (fs : List (String × Json)) :
    ∃ tail, laidOutFields spacing place (f :: fs) = '"' :: tail := by
  obtain ⟨name, x⟩ := f
  cases fs with
  | nil => exact ⟨_, by rw [laidOutFields, toList_quoted, List.cons_append]⟩
  | cons g gs => exact ⟨_, by rw [laidOutFields, toList_quoted, List.cons_append]⟩

mutual

/-- A written value is read back, whatever follows it. -/
theorem value_laidOut (spacing : Spacing) (place : Nat) :
    ∀ (v : Json) (fuel : Nat) ⦃depth : Nat⦄ ⦃blanks rest : List Char⦄, v.nesting ≤ depth →
      v.NumbersReadBack → (laidOut spacing place v).length < fuel → EndsNumber rest →
      (∀ c ∈ blanks, isSpace c = true) →
      value fuel depth (blanks ++ (laidOut spacing place v ++ rest)) = some (v, rest)
  | _, 0 => fun _ _ _ _ _ hfuel => absurd hfuel (Nat.not_lt_zero _)
  | .null, fuel + 1 => by
    intro depth blanks rest _ _ _ _ hblanks
    rw [value, skipSpace_append hblanks]
    rfl
  | .bool b, fuel + 1 => by
    intro depth blanks rest _ _ _ _ hblanks
    rw [value, skipSpace_append hblanks]
    cases b <;> rfl
  | .number n, fuel + 1 => fun _ _ _ _ hn _ hrest hblanks => value_number hn hrest fuel _ hblanks
  | .string s, fuel + 1 => by
    intro depth blanks rest _ _ _ _ hblanks
    rw [value, skipSpace_append hblanks, laidOut, toList_quoted, List.cons_append,
      skipSpace_cons (by decide), List.append_assoc, List.singleton_append]
    have hread := stringBody_quoted s rest
    show (stringBody _ [] _).map (fun r => (string r.1, r.2)) = _
    rw [hread]
    rfl
  | .array [], fuel + 1 => by
    intro depth blanks rest hdepth _ _ _ hblanks
    simp only [nesting, nestingOfItems] at hdepth
    obtain ⟨depth, rfl⟩ := Nat.exists_eq_add_of_le' hdepth
    rw [value, skipSpace_append hblanks]
    rfl
  | .array (x :: xs), fuel + 1 => by
    intro depth blanks rest hdepth hnumbers hfuel _ hblanks
    rw [nesting] at hdepth
    obtain ⟨depth, rfl⟩ := Nat.exists_eq_add_of_le' (Nat.le_of_add_right_le hdepth)
    simp only [laidOut, List.length_cons, List.length_append] at hfuel
    have hitems : items fuel depth ([] ++ (laidOutItems spacing (place + 1) (x :: xs) ++
        (spacing.gap place ++ ']' :: rest))) = some (x :: xs, rest) :=
      items_laidOut spacing (place + 1) (x :: xs) fuel (List.cons_ne_nil _ _) (by omega) hnumbers
        (by omega) (by simp) (spacing.isSpace_gap place)
    obtain ⟨c, tail, hcons, hspace, hopen⟩ :=
      exists_cons_laidOutItems spacing (place + 1) xs hnumbers.1
    rw [List.nil_append, hcons, List.cons_append] at hitems
    rw [value, skipSpace_append hblanks, laidOut, List.cons_append, skipSpace_cons (by decide)]
    simp only [List.append_assoc, skipSpace_append (spacing.isSpace_gap (place + 1)), hcons,
      List.cons_append, skipSpace_cons hspace, List.nil_append]
    split
    · rename_i heq
      cases heq
      exact absurd rfl hopen
    · rw [hitems]
      rfl
  | .object [], fuel + 1 => by
    intro depth blanks rest hdepth _ _ _ hblanks
    simp only [nesting, nestingOfFields] at hdepth
    obtain ⟨depth, rfl⟩ := Nat.exists_eq_add_of_le' hdepth
    rw [value, skipSpace_append hblanks]
    rfl
  | .object (f :: fs), fuel + 1 => by
    intro depth blanks rest hdepth hnumbers hfuel _ hblanks
    rw [nesting] at hdepth
    obtain ⟨depth, rfl⟩ := Nat.exists_eq_add_of_le' (Nat.le_of_add_right_le hdepth)
    simp only [laidOut, List.length_cons, List.length_append] at hfuel
    have hmembers : members fuel depth ([] ++ (laidOutFields spacing (place + 1) (f :: fs) ++
        (spacing.gap place ++ '\x7d' :: rest))) = some (f :: fs, rest) :=
      members_laidOut spacing (place + 1) (f :: fs) fuel (List.cons_ne_nil _ _) (by omega) hnumbers
        (by omega) (by simp) (spacing.isSpace_gap place)
    obtain ⟨tail, hcons⟩ := exists_cons_laidOutFields spacing (place + 1) f fs
    rw [List.nil_append, hcons, List.cons_append] at hmembers
    rw [value, skipSpace_append hblanks, laidOut, List.cons_append, skipSpace_cons (by decide)]
    simp only [List.append_assoc, skipSpace_append (spacing.isSpace_gap (place + 1)), hcons,
      List.cons_append, List.nil_append]
    rw [skipSpace_cons (by decide)]
    split
    · rename_i heq
      cases heq
    · rw [hmembers]
      rfl

/-- Written items are read back up to the closing bracket. -/
theorem items_laidOut (spacing : Spacing) (place : Nat) :
    ∀ (xs : List Json) (fuel : Nat) ⦃depth : Nat⦄ ⦃blanks gap rest : List Char⦄, xs ≠ [] →
      nestingOfItems xs ≤ depth → AllNumbersItems Number.ReadsBack xs →
      (laidOutItems spacing place xs).length + 1 < fuel → (∀ c ∈ blanks, isSpace c = true) →
      (∀ c ∈ gap, isSpace c = true) →
      items fuel depth (blanks ++ (laidOutItems spacing place xs ++ (gap ++ ']' :: rest))) =
        some (xs, rest)
  | [], _ => fun _ _ _ _ hne => absurd rfl hne
  | _ :: _, 0 => fun _ _ _ _ _ _ _ hfuel => absurd hfuel (Nat.not_lt_zero _)
  | [x], fuel + 1 => by
    intro depth blanks gap rest _ hdepth hnumbers hfuel hblanks hgap
    rw [nestingOfItems] at hdepth
    rw [laidOutItems] at hfuel ⊢
    rw [items, value_laidOut spacing place x fuel (by omega) hnumbers.1 (by omega)
      (endsNumber_append hgap (by simp) rest) hblanks]
    simp only [skipSpace_append hgap]
    rfl
  | x :: y :: ys, fuel + 1 => by
    intro depth blanks gap rest _ hdepth hnumbers hfuel hblanks hgap
    rw [nestingOfItems] at hdepth
    rw [laidOutItems, List.length_append, List.length_cons, List.length_append] at hfuel
    have hrest : items fuel depth (spacing.gap place ++ (laidOutItems spacing place (y :: ys) ++
        (gap ++ ']' :: rest))) = some (y :: ys, rest) :=
      items_laidOut spacing place (y :: ys) fuel (List.cons_ne_nil _ _) (by omega) hnumbers.2
        (by omega) (spacing.isSpace_gap place) hgap
    rw [laidOutItems, List.append_assoc, List.cons_append, items,
      value_laidOut spacing place x fuel (by omega) hnumbers.1 (by omega)
        (endsNumber_cons (.inr (.inl rfl)) _) hblanks]
    simp only [skipSpace_cons (c := ',') (by decide), List.append_assoc, hrest, Option.map_some]

/-- Written members are read back up to the closing brace. -/
theorem members_laidOut (spacing : Spacing) (place : Nat) :
    ∀ (fs : List (String × Json)) (fuel : Nat) ⦃depth : Nat⦄ ⦃blanks gap rest : List Char⦄,
      fs ≠ [] →
      nestingOfFields fs ≤ depth → AllNumbersFields Number.ReadsBack fs →
      (laidOutFields spacing place fs).length + 1 < fuel → (∀ c ∈ blanks, isSpace c = true) →
      (∀ c ∈ gap, isSpace c = true) →
      members fuel depth (blanks ++ (laidOutFields spacing place fs ++ (gap ++ '}' :: rest))) =
        some (fs, rest)
  | [], _ => fun _ _ _ _ hne => absurd rfl hne
  | _ :: _, 0 => fun _ _ _ _ _ _ _ hfuel => absurd hfuel (Nat.not_lt_zero _)
  | [(name, x)], fuel + 1 => by
    intro depth blanks gap rest _ hdepth hnumbers hfuel hblanks hgap
    rw [nestingOfFields] at hdepth
    rw [laidOutFields, List.length_append, List.length_cons, List.length_append] at hfuel
    have hvalue : value fuel depth (spacing.mark ++ (laidOut spacing place x ++
        (gap ++ '\x7d' :: rest))) = some (x, gap ++ '\x7d' :: rest) :=
      value_laidOut spacing place x fuel (by omega) hnumbers.1 (by omega)
        (endsNumber_append hgap (by simp) rest) spacing.isSpace_mark
    rw [laidOutFields, toList_quoted, members, skipSpace_append hblanks]
    simp only [List.cons_append, List.append_assoc, List.nil_append,
      skipSpace_cons (c := '"') (by decide), stringBody_quoted,
      skipSpace_cons (c := ':') (by decide), hvalue, skipSpace_append hgap]
    rw [skipSpace_cons (by decide)]
    rfl
  | (name, x) :: f :: fs, fuel + 1 => by
    intro depth blanks gap rest _ hdepth hnumbers hfuel hblanks hgap
    rw [nestingOfFields] at hdepth
    rw [laidOutFields, List.length_append, List.length_cons, List.length_append,
      List.length_append, List.length_cons, List.length_append] at hfuel
    have hrest : members fuel depth (spacing.gap place ++
        (laidOutFields spacing place (f :: fs) ++ (gap ++ '\x7d' :: rest))) =
          some (f :: fs, rest) :=
      members_laidOut spacing place (f :: fs) fuel (List.cons_ne_nil _ _) (by omega) hnumbers.2
        (by omega) (spacing.isSpace_gap place) hgap
    have hvalue : ∀ rest, value fuel depth (spacing.mark ++ (laidOut spacing place x ++
        ',' :: rest)) = some (x, ',' :: rest) := fun rest =>
      value_laidOut spacing place x fuel (by omega) hnumbers.1 (by omega)
        (endsNumber_cons (.inr (.inl rfl)) rest) spacing.isSpace_mark
    rw [laidOutFields, toList_quoted, members, skipSpace_append hblanks]
    simp only [List.cons_append, List.append_assoc, List.nil_append,
      skipSpace_cons (c := '"') (by decide), stringBody_quoted,
      skipSpace_cons (c := ':') (by decide), hvalue]
    simp only [skipSpace_cons (c := ',') (by decide), hrest, Option.map_some]

end

/-! ## Texts -/

/-- Indented lines begin with the blanks of the indented spacing. -/
theorem toList_lineBreak (depth : Nat) : (lineBreak depth).toList = Spacing.indented.gap depth := by
  simp [lineBreak, Spacing.indented]

/-- A block of entries on lines of their own. -/
theorem toList_block (opening closing : String) (depth : Nat) {entries : List String}
    (h : entries ≠ []) :
    (block opening closing depth entries).toList = opening.toList ++
      (Spacing.indented.gap (depth + 1) ++
        (String.intercalate ("," ++ lineBreak (depth + 1)) entries).toList ++
        Spacing.indented.gap depth ++ closing.toList) := by
  unfold block
  rw [if_neg (by simpa using h)]
  simp only [String.toList_append, toList_lineBreak, List.append_assoc]

mutual

/-- Indented text is a value laid out with indentation. -/
theorem toList_prettyAt (depth : Nat) :
    ∀ v : Json, (prettyAt depth v).toList = laidOut .indented depth v
  | .null => by simp [prettyAt, laidOut]
  | .bool b => by cases b <;> simp [prettyAt, laidOut]
  | .number n => by rw [prettyAt, laidOut]
  | .string s => by rw [prettyAt, laidOut]
  | .array [] => by simp [prettyAt, prettyItems, block, laidOut]
  | .array (x :: xs) => by
    have hentries : prettyItems (depth + 1) (x :: xs) ≠ [] := by simp [prettyItems]
    rw [prettyAt, toList_block _ _ _ hentries, toList_prettyItems, laidOut]
    rfl
  | .object [] => by simp [prettyAt, prettyFields, block, laidOut]
  | .object (f :: fs) => by
    have hentries : prettyFields (depth + 1) (f :: fs) ≠ [] := by simp [prettyFields]
    rw [prettyAt, toList_block _ _ _ hentries, toList_prettyFields, laidOut]
    rfl

theorem toList_prettyItems (depth : Nat) : ∀ xs : List Json,
    (String.intercalate ("," ++ lineBreak depth) (prettyItems depth xs)).toList =
      laidOutItems .indented depth xs
  | [] => by simp [prettyItems, laidOutItems]
  | [x] => by
    rw [prettyItems, prettyItems, String.intercalate_singleton, toList_prettyAt, laidOutItems]
  | x :: y :: ys => by
    have hrest := toList_prettyItems depth (y :: ys)
    rw [prettyItems] at hrest
    rw [prettyItems, prettyItems, String.intercalate_cons_cons, laidOutItems]
    simp [hrest, toList_prettyAt depth x, toList_lineBreak]

theorem toList_prettyFields (depth : Nat) : ∀ fs : List (String × Json),
    (String.intercalate ("," ++ lineBreak depth) (prettyFields depth fs)).toList =
      laidOutFields .indented depth fs
  | [] => by simp [prettyFields, laidOutFields]
  | [(name, x)] => by
    rw [prettyFields, prettyFields, String.intercalate_singleton, laidOutFields]
    simp [toList_prettyAt depth x, Spacing.indented]
  | (name, x) :: (other, y) :: fs => by
    have hrest := toList_prettyFields depth ((other, y) :: fs)
    rw [prettyFields] at hrest
    have hmark : Spacing.indented.mark = [' '] := rfl
    rw [prettyFields, prettyFields, String.intercalate_cons_cons, laidOutFields,
      String.toList_append, hrest]
    simp [toList_prettyAt depth x, toList_lineBreak, hmark]

end

mutual

/-- A regular value repeats no names, so that merging repeated names leaves it as it is. -/
theorem distinct_of_regular : ∀ {v : Json}, v.Regular → v.distinct = v
  | .null, _ | .bool _, _ | .number _, _ | .string _, _ => rfl
  | .array items, h => by rw [distinct, distinctItems_of_regular (regular_array_iff.1 h)]
  | .object fields, h => by
    obtain ⟨hdistinct, hfields⟩ := regular_object_iff.1 h
    rw [distinct, distinctFields_of_regular hfields, Fields.ofList_of_distinct hdistinct]

theorem distinctItems_of_regular :
    ∀ {items : List Json}, (∀ x ∈ items, x.Regular) → distinctItems items = items
  | [], _ => rfl
  | x :: xs, h => by
    rw [distinctItems, distinct_of_regular (h x List.mem_cons_self),
      distinctItems_of_regular fun y hy => h y (List.mem_cons_of_mem _ hy)]

theorem distinctFields_of_regular :
    ∀ {fields : List (String × Json)}, (∀ f ∈ fields, f.2.Regular) → distinctFields fields = fields
  | [], _ => rfl
  | (name, x) :: fs, h => by
    rw [distinctFields, distinct_of_regular (h (name, x) List.mem_cons_self),
      distinctFields_of_regular fun f hf => h f (List.mem_cons_of_mem _ hf)]

end

/-- A value whose text is read back: its nesting stays within some levels, no object repeats a
name, and its numbers read back. -/
structure Legible (levels : Nat) (v : Json) : Prop where
  nesting_le : v.nesting ≤ levels
  regular : v.Regular
  numbersReadBack : v.NumbersReadBack

theorem nestingOfFields_le_iff {fields : List (String × Json)} {levels : Nat} :
    nestingOfFields fields ≤ levels ↔ ∀ f ∈ fields, f.2.nesting ≤ levels := by
  induction fields with
  | nil => simp [nestingOfFields]
  | cons f fs ih => simp [nestingOfFields, ih]

theorem allNumbersFields_iff {P : Number → Prop} {fields : List (String × Json)} :
    AllNumbersFields P fields ↔ ∀ f ∈ fields, f.2.AllNumbers P := by
  induction fields with
  | nil => simp [AllNumbersFields]
  | cons f fs ih => simp [AllNumbersFields, ih]

mutual

/-- A property of every number holds of the numbers in a value. -/
theorem allNumbers_of_forall {P : Number → Prop} (h : ∀ n, P n) : ∀ v : Json, v.AllNumbers P
  | null | bool _ | string _ => trivial
  | number n => h n
  | array items => allNumbersItems_of_forall h items
  | object fields => allNumbersFields_of_forall h fields

theorem allNumbersItems_of_forall {P : Number → Prop} (h : ∀ n, P n) :
    ∀ items : List Json, AllNumbersItems P items
  | [] => trivial
  | x :: xs => ⟨allNumbers_of_forall h x, allNumbersItems_of_forall h xs⟩

theorem allNumbersFields_of_forall {P : Number → Prop} (h : ∀ n, P n) :
    ∀ fields : List (String × Json), AllNumbersFields P fields
  | [] => trivial
  | (_, x) :: xs => ⟨allNumbers_of_forall h x, allNumbersFields_of_forall h xs⟩

end

/-- A 64-bit integer is legible. -/
theorem legible_int {i : Int} {levels : Nat} (hlow : -2 ^ 63 ≤ i) (hhigh : i < 2 ^ 64) :
    (int i).Legible levels :=
  ⟨Nat.zero_le _, trivial, Number.readsBack_int hlow hhigh⟩

/-- An object is legible when its names are distinct and its members legible one level below. -/
theorem legible_object {fields : List (String × Json)} {levels : Nat}
    (hdistinct : Fields.Distinct fields) (h : ∀ f ∈ fields, f.2.Legible levels) :
    (object fields).Legible (levels + 1) where
  nesting_le := by
    have hmembers := nestingOfFields_le_iff.2 fun f hf => (h f hf).nesting_le
    rw [nesting]
    omega
  regular := regular_object_iff.2 ⟨hdistinct, fun f hf => (h f hf).regular⟩
  numbersReadBack := allNumbersFields_iff.2 fun f hf => (h f hf).numbersReadBack

/-- The indented text of a legible value is read back. -/
theorem parse?_pretty {v : Json} (h : v.Legible maxDepth) : parse? v.pretty = some v := by
  have hread : Reader.value (v.pretty.toList.length + 1) maxDepth
      ([] ++ (laidOut .indented 0 v ++ [])) = some (v, []) := by
    rw [pretty, toList_prettyAt]
    exact value_laidOut .indented 0 v _ h.nesting_le h.numbersReadBack (Nat.lt_succ_self _)
      EndsNumber.nil (by simp)
  rw [List.append_nil, List.nil_append, ← toList_prettyAt] at hread
  have hwritten : parseAsWritten? v.pretty = some v := by
    unfold parseAsWritten?
    simp only [pretty] at hread ⊢
    simp [hread, skipSpace]
  rw [parse?, hwritten, Option.map_some, distinct_of_regular h.regular]

end Json

end ViewSchema
