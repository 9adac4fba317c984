import Mathlib.Tactic.IntervalCases
import ViewSchema.Json.Reader
import ViewSchema.Json.Text

/-!
# Reading strings and numbers back

A quoted string is read back as the string it was written from.  A number literal that is
read up to its end is also read in front of anything that cannot continue it, so that one
can tell from the text of a number alone whether it reads back; the text of a 64-bit integer
does.

Main results:

- Theorem `Json.Reader.stringBody_quoted`: a quoted string is read back.
- Theorem `Json.Reader.numberLiteral_append`: what follows a number leaves its reading alone.
- Theorem `Number.readsBack_int`: the text of a 64-bit integer is read back.
-/

namespace ViewSchema

namespace Json

namespace Reader

variable {cs rest left : List Char}

/-! ## Strings -/

/-- The digits of a control character. -/
theorem hexUnit_hexDigits {n : Nat} (h : n < 0x20) (rest : List Char) :
    hexUnit (hexDigits 4 n ++ rest) = some (n, rest) := by
  interval_cases n <;> rfl

/-- A written character is read as that character. -/
theorem stringBody_escapeChar (c : Char) (fuel : Nat) (acc rest : List Char) :
    stringBody (fuel + 1) acc (escapeChar c ++ rest) = stringBody fuel (c :: acc) rest := by
  unfold escapeChar
  split
  · subst_vars; rfl
  split
  · subst_vars; rfl
  split
  · subst_vars; rfl
  split
  · subst_vars; rfl
  split
  · subst_vars; rfl
  split
  · rename_i hcode
    have hc : Char.ofNat 8 = c := hcode ▸ Char.ofNat_toNat c
    rw [← hc]
    rfl
  split
  · rename_i hcode
    have hc : Char.ofNat 12 = c := hcode ▸ Char.ofNat_toNat c
    rw [← hc]
    rfl
  split
  · rename_i hcontrol
    have hescape : escape ('u' :: (hexDigits 4 c.toNat ++ rest)) = some (c, rest) := by
      have hlow : ¬(0xDC00 ≤ c.toNat ∧ c.toNat ≤ 0xDFFF) := by omega
      have hhigh : ¬(0xD800 ≤ c.toNat ∧ c.toNat ≤ 0xDBFF) := by omega
      simp [escape, unicodeEscape, hexUnit_hexDigits hcontrol, hlow, hhigh, Char.ofNat_toNat]
    simp [stringBody, hescape]
  · rename_i hquote hbackslash _ _ _ _ _ hcontrol
    simp [stringBody, hquote, hbackslash, hcontrol]

/-- Written characters up to the closing quote are read as those characters. -/
theorem stringBody_escaped (chars : List Char) {fuel : Nat} (h : chars.length < fuel)
    (acc rest : List Char) :
    stringBody fuel acc (chars.flatMap escapeChar ++ '"' :: rest) =
      some (String.ofList (acc.reverse ++ chars), rest) := by
  induction chars generalizing fuel acc with
  | nil =>
    obtain ⟨fuel, rfl⟩ := Nat.exists_eq_add_of_lt h
    simp [stringBody]
  | cons c chars ih =>
    cases fuel with
    | zero => simp at h
    | succ fuel =>
      rw [List.flatMap_cons, List.append_assoc, stringBody_escapeChar,
        ih (by simpa using h)]
      simp

/-- Every character is written by one character at least. -/
theorem length_le_flatMap_escapeChar (chars : List Char) :
    chars.length ≤ (chars.flatMap escapeChar).length := by
  induction chars with
  | nil => simp
  | cons c chars ih =>
    have hpos : 1 ≤ (escapeChar c).length := by
      unfold escapeChar
      repeat' split
      all_goals simp
    rw [List.flatMap_cons, List.length_append, List.length_cons]
    omega

/-- A quoted string without its opening quote. -/
theorem toList_quoted (s : String) :
    (quoted s).toList = '"' :: (s.toList.flatMap escapeChar ++ ['"']) := by
  simp [quoted]

/-- A quoted string is read back. -/
theorem stringBody_quoted (s : String) (rest : List Char) :
    stringBody ((s.toList.flatMap escapeChar ++ '"' :: rest).length + 1) []
      (s.toList.flatMap escapeChar ++ '"' :: rest) = some (s, rest) := by
  have hlength := length_le_flatMap_escapeChar s.toList
  rw [stringBody_escaped _ (by simp only [List.length_append, List.length_cons]; omega)]
  simp

/-! ## Numbers -/

/-- What may follow a number: nothing that continues its literal. -/
def EndsNumber (rest : List Char) : Prop :=
  ∀ c ∈ rest.head?, c.isDigit = false ∧ c ≠ '.' ∧ c ≠ 'e' ∧ c ≠ 'E'

/-- The end of a text ends a number. -/
theorem EndsNumber.nil : EndsNumber [] := by simp [EndsNumber]

/-- No digit follows a number. -/
theorem EndsNumber.takeWhile (h : EndsNumber rest) : rest.takeWhile Char.isDigit = [] := by
  cases rest with
  | nil => rfl
  | cons c rest => simp [(h c rfl).1]

/-- What ends a number does not begin with a digit. -/
theorem EndsNumber.dropWhile (h : EndsNumber rest) : rest.dropWhile Char.isDigit = rest := by
  cases rest with
  | nil => rfl
  | cons c rest => simp [(h c rfl).1]

/-- Digits are taken up to what ends the number. -/
theorem EndsNumber.takeWhile_append (h : EndsNumber rest) (cs : List Char) :
    (cs ++ rest).takeWhile Char.isDigit = cs.takeWhile Char.isDigit := by
  rw [List.takeWhile_append, h.takeWhile]
  split
  · rename_i hlength
    rw [List.append_nil]
    exact (List.IsPrefix.eq_of_length (List.takeWhile_prefix _) hlength).symm
  · rfl

/-- What ends the number is left behind the digits. -/
theorem EndsNumber.dropWhile_append (h : EndsNumber rest) (cs : List Char) :
    (cs ++ rest).dropWhile Char.isDigit = cs.dropWhile Char.isDigit ++ rest := by
  rw [List.dropWhile_append, h.dropWhile]
  split
  · rename_i hempty
    rw [List.isEmpty_iff.1 hempty, List.nil_append]
  · rfl

/-- Digits are appended up to what ends the number. -/
theorem appendDigits_append (h : EndsNumber rest) (significand count : Nat) (cs : List Char) :
    appendDigits significand count (cs ++ rest) =
      ((appendDigits significand count cs).1, (appendDigits significand count cs).2.1,
        (appendDigits significand count cs).2.2 ++ rest) := by
  induction cs generalizing significand count with
  | nil =>
    cases rest with
    | nil => rfl
    | cons c rest => simp [appendDigits, (h c rfl).1]
  | cons c cs ih =>
    rw [List.cons_append, appendDigits, appendDigits]
    split
    · exact ih _ _
    · rfl

section Parts

variable {negative : Bool} {significand : Nat} {scale : Int} {n : Number}

/-- Rounding a literal has nothing to do with what follows it. -/
theorem double_append (h : double negative significand scale cs = some (n, left)) :
    double negative significand scale (cs ++ rest) = some (n, left ++ rest) := by
  unfold double at h ⊢
  cases hd : Double.ofScaled negative significand scale with
  | none => simp [hd] at h
  | some d =>
    simp only [hd, Option.map_some, Option.some.injEq, Prod.mk.injEq] at h
    simp [h.1, h.2]

/-- A sequence of digits ends with its number. -/
theorem EndsNumber.takeDigits_append (hrest : EndsNumber rest) (cs : List Char) :
    Double.takeDigits (cs ++ rest) =
      ((Double.takeDigits cs).1, (Double.takeDigits cs).2 ++ rest) := by
  simp [Double.takeDigits, hrest.takeWhile_append, hrest.dropWhile_append]

/-- The sign of an exponent and what follows it. -/
def exponentSign : List Char → Bool × List Char
  | '-' :: rest => (true, rest)
  | '+' :: rest => (false, rest)
  | rest => (false, rest)

/-- The sign of an exponent does not depend on what follows the exponent. -/
theorem exponentSign_append (h : cs ≠ []) (rest : List Char) :
    exponentSign (cs ++ rest) = ((exponentSign cs).1, (exponentSign cs).2 ++ rest) := by
  cases cs with
  | nil => exact absurd rfl h
  | cons c tail =>
    unfold exponentSign
    rw [List.cons_append]
    split <;> simp_all

/-- An exponent part is read in terms of its sign. -/
theorem exponentPart_eq (negative : Bool) (significand : Nat) (scale : Int) (cs : List Char) :
    exponentPart negative significand scale cs =
      if (Double.takeDigits (exponentSign cs).2).1.isEmpty then none
      else if exponentLimit ≤ (ofDigits (Double.takeDigits (exponentSign cs).2).1 : Int) then
        if significand ≠ 0 ∧ !(exponentSign cs).1 then none
        else some (.double (Double.zero negative), (Double.takeDigits (exponentSign cs).2).2)
      else double negative significand
        (max (-exponentLimit) (min (exponentLimit - 1)
          (if (exponentSign cs).1 then scale - ofDigits (Double.takeDigits (exponentSign cs).2).1
            else scale + ofDigits (Double.takeDigits (exponentSign cs).2).1)))
        (Double.takeDigits (exponentSign cs).2).2 := rfl

/-- An exponent is read up to what ends the number. -/
theorem exponentPart_append (hrest : EndsNumber rest)
    (h : exponentPart negative significand scale cs = some (n, left)) :
    exponentPart negative significand scale (cs ++ rest) = some (n, left ++ rest) := by
  have hcs : cs ≠ [] := by
    rintro rfl
    simp [exponentPart, Double.takeDigits] at h
  rw [exponentPart_eq] at h ⊢
  rw [exponentSign_append hcs, hrest.takeDigits_append]
  dsimp only
  split at h
  · cases h
  rw [if_neg ‹_›]
  split at h
  · rw [if_pos ‹_›]
    split at h
    · cases h
    · rw [if_neg ‹_›]
      cases h
      rfl
  · rw [if_neg ‹_›]
    exact double_append h

/-- Nothing that follows a number begins an exponent. -/
theorem scaledEnd_of_ends (hrest : EndsNumber rest) :
    scaledEnd negative significand scale rest = double negative significand scale rest := by
  unfold scaledEnd
  split
  · exact absurd rfl (hrest 'e' rfl).2.2.1
  · exact absurd rfl (hrest 'E' rfl).2.2.2
  · rfl

/-- A literal that may go on with an exponent is read up to what ends the number. -/
theorem scaledEnd_append (hrest : EndsNumber rest)
    (h : scaledEnd negative significand scale cs = some (n, left)) :
    scaledEnd negative significand scale (cs ++ rest) = some (n, left ++ rest) := by
  cases cs with
  | nil =>
    rw [List.nil_append, scaledEnd_of_ends hrest]
    exact double_append h
  | cons c tail =>
    rw [List.cons_append]
    unfold scaledEnd at h ⊢
    split at h
    · rename_i heq
      cases heq
      exact exponentPart_append hrest h
    · rename_i heq
      cases heq
      exact exponentPart_append hrest h
    · have hend : double negative significand scale (c :: tail ++ rest) = some (n, left ++ rest) :=
        double_append h
      simp_all

/-- A fraction is read up to what ends the number. -/
theorem fractionPart_append (hrest : EndsNumber rest)
    (h : fractionPart negative significand scale cs = some (n, left)) :
    fractionPart negative significand scale (cs ++ rest) = some (n, left ++ rest) := by
  cases cs with
  | nil => cases h
  | cons c tail =>
    simp only [fractionPart] at h
    split at h
    · rename_i hdigit
      rw [List.cons_append]
      simp only [fractionPart]
      rw [if_pos hdigit, ← List.cons_append, appendDigits_append hrest]
      simp only [hrest.dropWhile_append]
      exact scaledEnd_append hrest h
    · cases h

/-- What follows the whole part is read up to what ends the number. -/
theorem afterWhole_append (hrest : EndsNumber rest)
    (h : afterWhole negative significand cs = some (n, left)) :
    afterWhole negative significand (cs ++ rest) = some (n, left ++ rest) := by
  cases cs with
  | nil =>
    cases h
    rw [List.nil_append]
    unfold afterWhole
    split
    · exact absurd rfl (hrest '.' rfl).2.1
    · exact absurd rfl (hrest 'e' rfl).2.2.1
    · exact absurd rfl (hrest 'E' rfl).2.2.2
    · rfl
  | cons c tail =>
    rw [List.cons_append]
    unfold afterWhole at h ⊢
    split at h
    · rename_i heq
      cases heq
      exact fractionPart_append hrest h
    · rename_i heq
      cases heq
      exact exponentPart_append hrest h
    · rename_i heq
      cases heq
      exact exponentPart_append hrest h
    · cases h
      simp_all

/-- The same behind a whole part that is too long for the significand. -/
theorem afterLongWhole_append (hrest : EndsNumber rest)
    (h : afterLongWhole negative significand scale cs = some (n, left)) :
    afterLongWhole negative significand scale (cs ++ rest) = some (n, left ++ rest) := by
  cases cs with
  | nil =>
    have hend : scaledEnd negative significand scale ([] ++ rest) = some (n, left ++ rest) :=
      scaledEnd_append hrest h
    rw [List.nil_append] at hend ⊢
    unfold afterLongWhole
    split
    · exact absurd rfl (hrest '.' rfl).2.1
    · exact hend
  | cons c tail =>
    rw [List.cons_append]
    unfold afterLongWhole at h ⊢
    split at h
    · rename_i heq
      cases heq
      exact fractionPart_append hrest h
    · have hend := scaledEnd_append hrest h
      simp_all

/-- A number without a leading zero. -/
theorem unsignedNumber_cons {c : Char} (h : c ≠ '0') (tail : List Char) :
    unsignedNumber negative (c :: tail) =
      if c.isDigit then
        if ((appendDigits 0 0 (c :: tail)).2.2.takeWhile Char.isDigit).isEmpty then
          afterWhole negative (appendDigits 0 0 (c :: tail)).1 (appendDigits 0 0 (c :: tail)).2.2
        else afterLongWhole negative (appendDigits 0 0 (c :: tail)).1
          ((appendDigits 0 0 (c :: tail)).2.2.takeWhile Char.isDigit).length
          ((appendDigits 0 0 (c :: tail)).2.2.dropWhile Char.isDigit)
      else none := by
  unfold unsignedNumber
  split <;> simp_all

/-- A literal is read up to what ends the number. -/
theorem unsignedNumber_append (hrest : EndsNumber rest)
    (h : unsignedNumber negative cs = some (n, left)) :
    unsignedNumber negative (cs ++ rest) = some (n, left ++ rest) := by
  cases cs with
  | nil => cases h
  | cons c tail =>
    rw [List.cons_append]
    by_cases hzero : c = '0'
    · subst hzero
      cases tail with
      | nil =>
        have hend : afterWhole negative 0 ([] ++ rest) = some (n, left ++ rest) :=
          afterWhole_append hrest h
        rw [List.nil_append] at hend ⊢
        cases rest with
        | nil => exact hend
        | cons d rest => simpa [unsignedNumber, (hrest d rfl).1] using hend
      | cons d tail =>
        simp only [unsignedNumber] at h
        split at h
        · cases h
        · rename_i hdigit
          have hend := afterWhole_append hrest h
          simpa [unsignedNumber, hdigit] using hend
    · rw [unsignedNumber_cons hzero] at h ⊢
      rw [← List.cons_append, appendDigits_append hrest]
      simp only [hrest.takeWhile_append, hrest.dropWhile_append]
      split at h
      · rw [if_pos ‹_›]
        split at h
        · rw [if_pos ‹_›]
          exact afterWhole_append hrest h
        · rw [if_neg ‹_›]
          exact afterLongWhole_append hrest h
      · cases h

end Parts

/-- What follows a number leaves its reading alone. -/
theorem numberLiteral_append {n : Number} (hrest : EndsNumber rest)
    (h : numberLiteral cs = some (n, left)) :
    numberLiteral (cs ++ rest) = some (n, left ++ rest) := by
  cases cs with
  | nil => cases h
  | cons c tail =>
    rw [List.cons_append]
    unfold numberLiteral at h ⊢
    split at h
    · rename_i heq
      cases heq
      exact unsignedNumber_append hrest h
    · have hend := unsignedNumber_append hrest h
      simp_all

/-! ## Integers -/

/-- Digits whose number stays below the limit are all appended. -/
theorem appendDigits_digits {digits : List Char} (hdigits : ∀ c ∈ digits, c.isDigit = true)
    {significand count : Nat}
    (h : Nat.ofDigitChars 10 digits significand < significandLimit) :
    appendDigits significand count digits =
      (Nat.ofDigitChars 10 digits significand, count + digits.length, []) := by
  induction digits generalizing significand count with
  | nil => simp [appendDigits]
  | cons c rest ih =>
    have hstep : significand * 10 + digitValue c = 10 * significand + (c.toNat - '0'.toNat) := by
      unfold digitValue
      omega
    rw [Nat.ofDigitChars_cons, ← hstep] at h ⊢
    have hbound : significand * 10 + digitValue c < significandLimit := by
      rw [Nat.ofDigitChars_eq_ofDigitChars_zero] at h
      have hpos : 1 ≤ 10 ^ rest.length := Nat.one_le_pow _ _ (by decide)
      have hle : 1 * (significand * 10 + digitValue c) ≤
          10 ^ rest.length * (significand * 10 + digitValue c) := Nat.mul_le_mul_right _ hpos
      omega
    rw [appendDigits, if_pos ⟨hdigits c List.mem_cons_self, hbound⟩,
      ih (fun d hd => hdigits d (List.mem_cons_of_mem _ hd)) h, List.length_cons]
    simp only [Prod.mk.injEq, true_and, and_true]
    omega

/-- The digits of a positive number do not begin with a zero. -/
theorem exists_toDigits_cons {n : Nat} (h : 0 < n) :
    ∃ c rest, Nat.toDigits 10 n = c :: rest ∧ c ≠ '0' := by
  induction n using Nat.strongRecOn with
  | ind n ih =>
    rw [Nat.toDigits_eq_if (by decide)]
    split
    · rename_i hsmall
      refine ⟨n.digitChar, [], rfl, ?_⟩
      interval_cases n <;> decide
    · rename_i hlarge
      obtain ⟨c, rest, hdigits, hne⟩ := ih (n / 10) (by omega) (by omega)
      exact ⟨c, rest ++ [(n % 10).digitChar], by rw [hdigits, List.cons_append], hne⟩

/-- The digits of a number below the limit are read as an integer. -/
theorem unsignedNumber_toDigits (negative : Bool) {n : Nat} (h : n < significandLimit) :
    unsignedNumber negative (Nat.toDigits 10 n) = some (integer negative n, []) := by
  rcases Nat.eq_zero_or_pos n with rfl | hpos
  · rw [Nat.toDigits_zero]
    rfl
  · have hdigits : ∀ c ∈ Nat.toDigits 10 n, c.isDigit = true :=
      fun c hc => Nat.isDigit_of_mem_toDigits (by decide) (by decide) hc
    have happend : appendDigits 0 0 (Nat.toDigits 10 n) =
        (n, 0 + (Nat.toDigits 10 n).length, []) := by
      rw [appendDigits_digits hdigits] <;> rw [Nat.ofDigitChars_ten_toDigits]
      exact h
    obtain ⟨c, rest, hcons, hne⟩ := exists_toDigits_cons hpos
    rw [hcons] at hdigits happend ⊢
    rw [unsignedNumber_cons hne, happend, if_pos (hdigits c List.mem_cons_self)]
    rfl

/-- A literal that begins with a digit has no sign. -/
theorem numberLiteral_of_isDigit {digits : List Char} (hdigits : ∀ c ∈ digits, c.isDigit = true) :
    numberLiteral digits = unsignedNumber false digits := by
  unfold numberLiteral
  split
  · exact absurd (hdigits '-' List.mem_cons_self) (by decide)
  · rfl

end Reader

end Json

namespace Number

/-- The text of a number is read as that number. -/
def ReadsBack (n : Number) : Prop := Json.Reader.numberLiteral n.text.toList = some (n, [])

instance (n : Number) : Decidable n.ReadsBack := inferInstanceAs (Decidable (_ = _))

/-- The text of a 64-bit integer is read as that integer. -/
theorem readsBack_int {i : Int} (hlow : -2 ^ 63 ≤ i) (hhigh : i < 2 ^ 64) : (int i).ReadsBack := by
  have hlimit : Json.Reader.significandLimit = 2 ^ 64 := rfl
  unfold ReadsBack
  rw [text, Int.toString_eq_repr, Int.repr_eq_if]
  split
  · rename_i hnonneg
    have hdigits : ∀ c ∈ Nat.toDigits 10 i.toNat, c.isDigit = true :=
      fun c hc => Nat.isDigit_of_mem_toDigits (by decide) (by decide) hc
    rw [Nat.toList_repr, Json.Reader.numberLiteral_of_isDigit hdigits,
      Json.Reader.unsignedNumber_toDigits false (by omega)]
    have hvalue : (i.toNat : Int) = i := Int.toNat_of_nonneg hnonneg
    simp [Json.Reader.integer, hvalue]
  · rename_i hnegative
    have hpositive : (-i).toNat ≠ 0 ∧ ¬2 ^ 63 < (-i).toNat := by omega
    rw [String.toList_append, Nat.toList_repr]
    have hread := Json.Reader.unsignedNumber_toDigits true (n := (-i).toNat) (by omega)
    have hvalue : ((-i).toNat : Int) = -i := Int.toNat_of_nonneg (by omega)
    have hinteger : Json.Reader.integer true (-i).toNat = .int i := by
      unfold Json.Reader.integer
      rw [if_neg (by decide), if_neg (by simpa using hpositive), hvalue, Int.neg_neg]
    rw [hinteger] at hread
    exact hread

end Number

end ViewSchema
