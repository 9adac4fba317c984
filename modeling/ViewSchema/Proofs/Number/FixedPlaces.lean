import ViewSchema.Number.Fixed
import ViewSchema.Proofs.Number.Rendering

/-!
# Numbers in fixed places

Decimal notation with a given number of places is determined by what it says: whole digits that do
not begin with a needless zero, a point and a digit for each place, and the value is the nearest one
that can be written so, the even one of two.  A double in fixed places is written like this.

Main results:

- Theorem `Rounds.unique`: a value rounds to one natural number.
- Theorem `IsWhole.eq_of_ofDigits_eq`: whole digits are told apart by their values.
- Definition `IsFixed`: the notation of a value in fixed places.
- Theorem `Double.isFixed_iff`: the notation of a double is the one that is written.
-/

namespace ViewSchema

/-! ## Rounding to natural numbers -/

/-- The natural number that a value rounds to: none is nearer, and of two that are as near it is the
even one. -/
structure Rounds (x : ℚ) (n : ℕ) : Prop where
  near : |x - n| ≤ 1 / 2
  even : |x - n| = 1 / 2 → n % 2 = 0

namespace Rounds

variable {x : ℚ} {m n : ℕ}

/-- A value does not round to two numbers one after the other: it would lie halfway. -/
theorem not_lt (hm : Rounds x m) (hn : Rounds x n) : ¬m < n := by
  intro hlt
  have hstep : (m : ℚ) + 1 ≤ n := by exact_mod_cast hlt
  have hbelow := (abs_le.1 hm.near).2
  have habove := (abs_le.1 hn.near).1
  have hnext : (n : ℚ) = m + 1 := by linarith
  have hhalf : x - m = 1 / 2 := by linarith
  have hhalf' : x - n = -(1 / 2) := by linarith
  have heven := hm.even (by rw [hhalf]; norm_num)
  have heven' := hn.even (by rw [hhalf']; norm_num)
  have hsucc : n = m + 1 := by exact_mod_cast hnext
  omega

/-- A value rounds to one number only. -/
theorem unique (hm : Rounds x m) (hn : Rounds x n) : m = n :=
  Nat.le_antisymm (Nat.not_lt.1 (hn.not_lt hm)) (Nat.not_lt.1 (hm.not_lt hn))

/-- A number with less than half of the next one is rounded down, with half if it is even. -/
theorem down {part : ℚ} (hnonneg : 0 ≤ part) (hle : part ≤ 1 / 2)
    (heven : part = 1 / 2 → n % 2 = 0) : Rounds (n + part) n := by
  have hdistance : |(n : ℚ) + part - n| = part := by
    rw [add_sub_cancel_left, abs_of_nonneg hnonneg]
  exact ⟨hdistance.trans_le hle, fun hhalf => heven (hdistance.symm.trans hhalf)⟩

/-- With more than half of the next one it is rounded up, with half if it is odd. -/
theorem up {part : ℚ} (hge : 1 / 2 ≤ part) (hle : part ≤ 1) (hodd : part = 1 / 2 → n % 2 = 1) :
    Rounds (n + part) (n + 1) := by
  have hdistance : |(n : ℚ) + part - (n + 1 : ℕ)| = 1 - part := by
    rw [abs_of_nonpos] <;> push_cast <;> linarith
  constructor
  · rw [hdistance]
    linarith
  · intro hhalf
    have hpart : part = 1 / 2 := by linarith
    have := hodd hpart
    omega

end Rounds

/-- A quotient is rounded to the nearest number. -/
theorem rounds_roundDiv (num : ℕ) {den : ℕ} (hden : 0 < den) :
    Rounds (num / den) (roundDiv num den) := by
  have hden' : (0 : ℚ) < den := Nat.cast_pos.2 hden
  have hsplit : (num : ℚ) / den = (num / den : ℕ) + (num % den : ℕ) / den := by
    have hdivision : (num : ℚ) = den * (num / den : ℕ) + (num % den : ℕ) := by
      exact_mod_cast (Nat.div_add_mod num den).symm
    rw [eq_comm, eq_div_iff hden'.ne', add_mul, div_mul_cancel₀ _ hden'.ne', hdivision]
    ring
  have hhalf : ((num % den : ℕ) : ℚ) / den = 1 / 2 → 2 * (num % den) = den := by
    rw [div_eq_div_iff hden'.ne' two_ne_zero]
    norm_cast
    omega
  rw [hsplit]
  unfold roundDiv
  dsimp only
  simp only [Bool.or_eq_true, decide_eq_true_eq, Bool.and_eq_true, beq_iff_eq]
  split
  · rename_i hup
    refine .up ?_ ?_ fun hpart => ?_
    · rw [div_le_div_iff₀ two_pos hden']
      norm_cast
      omega
    · rw [div_le_one hden']
      exact_mod_cast (Nat.mod_lt num hden).le
    · have := hhalf hpart
      omega
  · rename_i hdown
    refine .down (by positivity) ?_ fun hpart => ?_
    · rw [div_le_div_iff₀ hden' two_pos]
      norm_cast
      omega
    · have := hhalf hpart
      omega

/-! ## Digits and their values -/

/-- Digits in decimal notation. -/
def AllDigits (digits : List Char) : Prop := ∀ c ∈ digits, c.isDigit = true

/-- Digits joined with digits are digits. -/
theorem allDigits_append {xs ys : List Char} :
    AllDigits (xs ++ ys) ↔ AllDigits xs ∧ AllDigits ys := List.forall_mem_append

/-- Numbers are written with digits. -/
theorem allDigits_toDigits (n : ℕ) : AllDigits (Nat.toDigits 10 n) :=
  fun _ hc => Nat.isDigit_of_mem_toDigits (by decide) (by decide) hc

section Values

variable {c d : Char} {xs ys xs' ys' : List Char}

/-- A digit is worth less than ten. -/
theorem digitValue_lt (h : c.isDigit = true) : digitValue c < 10 := by
  have hlast : '9'.toNat = '0'.toNat + 9 := rfl
  have hbounds := Char.isDigit_iff_toNat.1 h
  unfold digitValue
  omega

/-- Digits of the same value are the same. -/
theorem digitValue_inj (hc : c.isDigit = true) (hd : d.isDigit = true)
    (h : digitValue c = digitValue d) : c = d := by
  have hlow := (Char.isDigit_iff_toNat.1 hc).1
  have hlow' := (Char.isDigit_iff_toNat.1 hd).1
  unfold digitValue at h
  exact Char.toNat_inj.1 (by omega)

/-- A single digit is worth what it is worth. -/
theorem ofDigits_singleton (c : Char) : ofDigits [c] = digitValue c := by simp [ofDigits]

/-- The first digit counts as often as its place says. -/
theorem ofDigits_cons (c : Char) (rest : List Char) :
    ofDigits (c :: rest) = digitValue c * 10 ^ rest.length + ofDigits rest := by
  rw [← List.singleton_append, ofDigits_append, ofDigits_singleton]

/-- Digits are worth less than one at the next place. -/
theorem ofDigits_lt (h : AllDigits xs) : ofDigits xs < 10 ^ xs.length := by
  induction xs with
  | nil => simp [ofDigits]
  | cons c rest ih =>
    obtain ⟨hc, hrest⟩ := List.forall_mem_cons.1 h
    have hvalue := digitValue_lt hc
    have htail := ih hrest
    rw [ofDigits_cons, List.length_cons, pow_succ]
    nlinarith

/-- The values of two parts of digits are quotient and remainder of the value of both. -/
theorem ofDigits_append_div_mod (xs : List Char) (hys : AllDigits ys) :
    ofDigits (xs ++ ys) / 10 ^ ys.length = ofDigits xs ∧
      ofDigits (xs ++ ys) % 10 ^ ys.length = ofDigits ys := by
  rw [Nat.div_mod_unique (by positivity), ofDigits_append]
  exact ⟨by ring, ofDigits_lt hys⟩

/-- The value of digits determines the values of two parts, if the second is of known length. -/
theorem ofDigits_append_inj (hlength : ys.length = ys'.length) (hys : AllDigits ys)
    (hys' : AllDigits ys') (h : ofDigits (xs ++ ys) = ofDigits (xs' ++ ys')) :
    ofDigits xs = ofDigits xs' ∧ ofDigits ys = ofDigits ys' := by
  obtain ⟨hfront, hback⟩ := ofDigits_append_div_mod xs hys
  obtain ⟨hfront', hback'⟩ := ofDigits_append_div_mod xs' hys'
  rw [h, hlength] at hfront hback
  exact ⟨hfront.symm.trans hfront', hback.symm.trans hback'⟩

/-- Digits of known length are told apart by their value. -/
theorem eq_of_ofDigits_eq (hlength : xs.length = ys.length) (hxs : AllDigits xs)
    (hys : AllDigits ys) (h : ofDigits xs = ofDigits ys) : xs = ys := by
  induction xs generalizing ys with
  | nil => exact (List.length_eq_zero_iff.1 hlength.symm).symm
  | cons c rest ih =>
    obtain ⟨d, others, rfl⟩ := List.exists_cons_of_length_eq_add_one hlength.symm
    rw [List.length_cons, List.length_cons, Nat.add_right_cancel_iff] at hlength
    obtain ⟨hc, hrest⟩ := List.forall_mem_cons.1 hxs
    obtain ⟨hd, hothers⟩ := List.forall_mem_cons.1 hys
    have hparts : ofDigits ([c] ++ rest) = ofDigits ([d] ++ others) := h
    obtain ⟨hfirst, htail⟩ := ofDigits_append_inj hlength hrest hothers hparts
    rw [ofDigits_singleton, ofDigits_singleton] at hfirst
    rw [digitValue_inj hc hd hfirst, ih hlength hrest hothers htail]

end Values

/-! ## Whole digits -/

/-- The digits of a whole number: at least one, and no zero in front of others. -/
structure IsWhole (digits : List Char) : Prop where
  digit : AllDigits digits
  ne_nil : digits ≠ []
  front : ∀ rest, digits = '0' :: rest → rest = []

namespace IsWhole

variable {xs ys : List Char}

/-- Two whole digits or more have the value that their number calls for. -/
theorem pow_le (h : IsWhole xs) (hlength : 1 < xs.length) :
    10 ^ (xs.length - 1) ≤ ofDigits xs := by
  cases xs with
  | nil => simp at hlength
  | cons c rest =>
    have hzero : c ≠ '0' := by
      rintro rfl
      simp [h.front rest rfl] at hlength
    have hpos : 1 ≤ digitValue c := by
      rw [Nat.one_le_iff_ne_zero]
      exact fun hvalue => hzero (digitValue_inj (h.digit c List.mem_cons_self) rfl hvalue)
    rw [ofDigits_cons, List.length_cons, Nat.add_sub_cancel]
    exact Nat.le_add_right_of_le (Nat.le_mul_of_pos_left _ hpos)

/-- Of two whole numbers of the same value, none has more digits. -/
theorem not_length_lt (hx : IsWhole xs) (hy : IsWhole ys) (h : ofDigits xs = ofDigits ys) :
    ¬xs.length < ys.length := by
  intro hlt
  have hpos := List.length_pos_iff.2 hx.ne_nil
  have hpower : 10 ^ xs.length ≤ 10 ^ (ys.length - 1) :=
    Nat.pow_le_pow_right (by decide) (by omega)
  have hbelow := ofDigits_lt hx.digit
  have habove := hy.pow_le (by omega)
  omega

/-- Whole digits are told apart by their values. -/
theorem eq_of_ofDigits_eq (hx : IsWhole xs) (hy : IsWhole ys) (h : ofDigits xs = ofDigits ys) :
    xs = ys := by
  have hforward := hx.not_length_lt hy h
  have hback := hy.not_length_lt hx h.symm
  exact ViewSchema.eq_of_ofDigits_eq (by omega) hx.digit hy.digit h

/-- So is a part at the front that is not empty. -/
theorem take (h : IsWhole xs) {n : ℕ} (hn : 0 < n) : IsWhole (xs.take n) where
  digit c hc := h.digit c (List.mem_of_mem_take hc)
  ne_nil hnil := by
    rcases List.take_eq_nil_iff.1 hnil with hzero | hempty
    · exact hn.ne' hzero
    · exact h.ne_nil hempty
  front rest hrest := by
    cases xs with
    | nil => exact absurd rfl h.ne_nil
    | cons c others =>
      obtain ⟨n, rfl⟩ : ∃ k, n = k + 1 := ⟨n - 1, by omega⟩
      rw [List.take_succ_cons, List.cons.injEq] at hrest
      obtain ⟨rfl, rfl⟩ := hrest
      rw [h.front others rfl, List.take_nil]

/-- One digit is whole digits, also a zero. -/
theorem of_length_eq_one (h : AllDigits xs) (hlength : xs.length = 1) : IsWhole xs := by
  obtain ⟨c, rfl⟩ := List.length_eq_one_iff.1 hlength
  refine ⟨h, List.cons_ne_nil _ _, ?_⟩
  rintro rest ⟨⟩
  rfl

end IsWhole

/-- The digits of a number are whole digits. -/
theorem isWhole_toDigits (n : ℕ) : IsWhole (Nat.toDigits 10 n) where
  digit := allDigits_toDigits n
  ne_nil := Nat.toDigits_ne_nil
  front rest h := by
    -- Without a zero in front there would be one digit less, which is enough for the value.
    by_contra hne
    have hvalue : n = ofDigits rest := by
      rw [← ofDigits_toDigits n, h, ofDigits_cons]
      simp [digitValue]
    have hdigits : AllDigits rest := fun c hc =>
      allDigits_toDigits n c (h ▸ List.mem_cons_of_mem _ hc)
    have hfits : n < 10 ^ rest.length := hvalue ▸ ofDigits_lt hdigits
    have hlength := (Nat.length_toDigits_le_iff (by decide) (List.length_pos_iff.2 hne)).2 hfits
    rw [h, List.length_cons] at hlength
    omega

/-! ## Notation in fixed places -/

/-- Whole digits, and a point before decimals if there are any. -/
def pointed (whole fraction : List Char) : List Char :=
  whole ++ if fraction.isEmpty then [] else '.' :: fraction

/-- Only a point is added. -/
theorem mem_pointed_iff {whole fraction : List Char} {c : Char} (h : c ≠ '.') :
    c ∈ pointed whole fraction ↔ c ∈ whole ++ fraction := by
  rw [pointed]
  split <;> simp_all

/-- Digits that write a value in fixed places. -/
structure FixedParts (places : ℕ) (x : ℚ) (whole fraction : List Char) : Prop where
  isWhole : IsWhole whole
  digit : AllDigits fraction
  length : fraction.length = places
  rounds : Rounds (x * 10 ^ places) (ofDigits (whole ++ fraction))

/-- Decimal notation of a value that is not negative, in fixed places. -/
def IsFixed (places : ℕ) (x : ℚ) (text : List Char) : Prop :=
  ∃ whole fraction, FixedParts places x whole fraction ∧ text = pointed whole fraction

/-- Digits that write a value in fixed places are determined by it. -/
theorem FixedParts.unique {places : ℕ} {x : ℚ} {whole fraction whole' fraction' : List Char}
    (h : FixedParts places x whole fraction) (h' : FixedParts places x whole' fraction') :
    whole = whole' ∧ fraction = fraction' := by
  have hlength := h.length.trans h'.length.symm
  obtain ⟨hwhole, hfraction⟩ :=
    ofDigits_append_inj hlength h.digit h'.digit (h.rounds.unique h'.rounds)
  exact ⟨h.isWhole.eq_of_ofDigits_eq h'.isWhole hwhole,
    eq_of_ofDigits_eq hlength h.digit h'.digit hfraction⟩

namespace Double

/-- A magnitude shifted by some places is a fraction of natural numbers. -/
theorem magnitude_mul_pow (d : Double) (places : ℕ) :
    d.magnitude * 10 ^ places = ((d.num * Nat.pow 10 places : ℕ) : ℚ) / d.den := by
  rw [← num_div_den, Nat.pow_eq]
  push_cast
  ring

/-- Zeros are padded up to a width. -/
theorem length_padZeros (width : ℕ) (digits : List Char) :
    (padZeros width digits).length = max width digits.length := by
  rw [padZeros, List.length_append, List.length_replicate]
  omega

/-- Padding digits with zeros gives digits. -/
theorem allDigits_padZeros (width : ℕ) {digits : List Char} (h : AllDigits digits) :
    AllDigits (padZeros width digits) :=
  allDigits_append.2 ⟨isDigit_of_mem_replicate, h⟩

/-- What stands before the places of padded digits are whole digits. -/
theorem isWhole_take_padZeros (n places : ℕ) :
    IsWhole ((padZeros (places + 1) (Nat.toDigits 10 n)).take
      ((padZeros (places + 1) (Nat.toDigits 10 n)).length - places)) := by
  have hlength := length_padZeros (places + 1) (Nat.toDigits 10 n)
  by_cases hlong : places + 1 ≤ (Nat.toDigits 10 n).length
  · have hnone : padZeros (places + 1) (Nat.toDigits 10 n) = Nat.toDigits 10 n := by
      rw [padZeros, Nat.sub_eq_zero_of_le hlong]
      rfl
    rw [hnone]
    exact (isWhole_toDigits n).take (by omega)
  · refine .of_length_eq_one (fun c hc => ?_) ?_
    · exact allDigits_padZeros _ (allDigits_toDigits n) c (List.mem_of_mem_take hc)
    · rw [List.length_take]
      omega

/-- The digits of a double in fixed places write its magnitude. -/
theorem fixedParts_fixedDigits (d : Double) (places : ℕ) :
    FixedParts places d.magnitude (d.fixedDigits places).1 (d.fixedDigits places).2 := by
  unfold fixedDigits
  dsimp only
  set scaled := roundDiv (d.num * Nat.pow 10 places) d.den with hscaled
  have hlength := length_padZeros (places + 1) (Nat.toDigits 10 scaled)
  refine ⟨isWhole_take_padZeros scaled places, fun c hc => ?_, ?_, ?_⟩
  · exact allDigits_padZeros _ (allDigits_toDigits scaled) c (List.mem_of_mem_drop hc)
  · rw [List.length_drop]
    omega
  · rw [List.take_append_drop, padZeros, ofDigits_leading, ofDigits_toDigits, magnitude_mul_pow,
      hscaled]
    exact rounds_roundDiv _ d.den_pos

/-- A double in fixed places. -/
def fixed (places : ℕ) (d : Double) : List Char :=
  pointed (d.fixedDigits places).1 (d.fixedDigits places).2

/-- The notation of the magnitude of a double in fixed places is the one that is written. -/
theorem isFixed_iff (d : Double) (places : ℕ) (text : List Char) :
    IsFixed places d.magnitude text ↔ text = d.fixed places := by
  constructor
  · rintro ⟨whole, fraction, hparts, rfl⟩
    obtain ⟨rfl, rfl⟩ := hparts.unique (d.fixedParts_fixedDigits places)
    rfl
  · rintro rfl
    exact ⟨_, _, d.fixedParts_fixedDigits places, rfl⟩

/-- The value of a double. -/
def value (d : Double) : ℚ := if d.negative then -d.magnitude else d.magnitude

/-- No magnitude is below zero. -/
theorem magnitude_nonneg (d : Double) : 0 ≤ d.magnitude := by
  unfold magnitude
  positivity

/-- Only zeros have no magnitude. -/
theorem magnitude_pos_iff (d : Double) : 0 < d.magnitude ↔ d.isZero = false := by
  have hunit : (0 : ℚ) < 2 ^ d.exponent := by positivity
  rw [magnitude, mul_pos_iff_of_pos_right hunit, Nat.cast_pos, Nat.pos_iff_ne_zero, isZero,
    beq_eq_false_iff_ne]

/-- The doubles below zero are those with a sign, except for the zero. -/
theorem value_neg_iff (d : Double) : d.value < 0 ↔ d.isNegative = true := by
  unfold value isNegative
  cases d.negative with
  | true => simp [magnitude_pos_iff]
  | false => simpa using d.magnitude_nonneg

end Double

end ViewSchema
