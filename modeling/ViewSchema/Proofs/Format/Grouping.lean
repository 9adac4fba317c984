import ViewSchema.Format
import ViewSchema.Proofs.Number.FixedPlaces
import ViewSchema.Proofs.Text.Segments

/-!
# Grouped numbers

The digits of a number are told from its separators in every language, so that the separators can be
taken out again: what is left is the number in fixed places, with its sign.  Behind the first
separator stand groups of three digits each.  An amount of money is the same number with a symbol
inside of the sign, or behind everything.

Main results:

- Theorem `splitAtEach_groupDigits`: the groups that separators make.
- Theorem `Separators.exists_marks`: a language separates by two characters that are no digits.
- Definition `Separators.plain`: a grouped number without its separators.
- Theorem `Formatter.plain_number`: it is the number in fixed places.
- Theorem `Formatter.number_and_currency`: what numbers and amounts say.
-/

namespace ViewSchema

/-! ## Groups -/

section Groups

variable {separates : Char → Bool} {separator : Char} {digits : List Char}

/-- The digits stand in a grouped number in their order. -/
theorem filter_groupDigits (hseparator : separates separator = true)
    (hdigits : ∀ c ∈ digits, separates c = false) :
    (groupDigits [separator] digits).filter (fun c => !separates c) = digits := by
  induction digits with
  | nil => rfl
  | cons d rest ih =>
    obtain ⟨hd, hrest⟩ := List.forall_mem_cons.1 hdigits
    rw [groupDigits]
    split <;> simp [hd, hseparator, ih hrest]

/-- Grouped digits are digits and separators. -/
theorem mem_groupDigits {c : Char} (h : c ∈ groupDigits [separator] digits) :
    c ∈ digits ∨ c = separator := by
  induction digits with
  | nil => cases h
  | cons d rest ih =>
    rw [groupDigits] at h
    split at h
    · simp only [List.mem_cons, List.singleton_append] at h ⊢
      rcases h with rfl | rfl | hrest
      · exact .inl (.inl rfl)
      · exact .inr rfl
      · exact (ih hrest).imp_left .inr
    · simp only [List.mem_cons] at h ⊢
      rcases h with rfl | hrest
      · exact .inl (.inl rfl)
      · exact (ih hrest).imp_left .inr

/-- Grouped digits begin as the digits do. -/
theorem exists_groupDigits_eq_cons (separator : List Char) (d : Char) (rest : List Char) :
    ∃ tail, groupDigits separator (d :: rest) = d :: tail := by
  rw [groupDigits]
  split <;> exact ⟨_, rfl⟩

/-- Separators make groups of three digits behind a first one of up to three. -/
theorem splitAtEach_groupDigits (hseparator : separates separator = true)
    (hdigits : ∀ c ∈ digits, separates c = false) (hne : digits ≠ []) :
    ∃ first others, splitAtEach separates (groupDigits [separator] digits) = first :: others ∧
      (first :: others).flatten = digits ∧ first.length = (digits.length - 1) % 3 + 1 ∧
      ∀ group ∈ others, group.length = 3 := by
  induction digits with
  | nil => exact absurd rfl hne
  | cons d rest ih =>
    obtain ⟨hd, hrest⟩ := List.forall_mem_cons.1 hdigits
    by_cases hlast : rest = []
    · subst hlast
      exact ⟨[d], [], by simp [groupDigits, splitAtEach, hd], by simp⟩
    have hpos := List.length_pos_iff.2 hlast
    obtain ⟨first, others, hsplit, hflat, hlength, hthree⟩ := ih hrest hlast
    by_cases hfull : rest.length % 3 = 0
    · -- The rest consists of full groups, and the digit begins a new one.
      have hgrouped : groupDigits [separator] (d :: rest) =
          d :: separator :: groupDigits [separator] rest := by simp [groupDigits, hfull, hlast]
      refine ⟨[d], first :: others, ?_, by simpa using hflat, ?_, ?_⟩
      · rw [hgrouped, splitAtEach_cons hd (splitAtEach_separator hseparator _), hsplit]
      · simp only [List.length_cons, List.length_nil]
        omega
      · rw [List.forall_mem_cons]
        exact ⟨by omega, hthree⟩
    · have hgrouped : groupDigits [separator] (d :: rest) =
          d :: groupDigits [separator] rest := by simp [groupDigits, hfull]
      refine ⟨d :: first, others, ?_, by simpa using hflat, ?_, hthree⟩
      · rw [hgrouped, splitAtEach_cons hd hsplit]
      · simp only [List.length_cons]
        omega

end Groups

/-! ## Separators of languages -/

namespace Separators

/-- A language separates groups and decimals by two characters that are neither digits nor signs. -/
structure Marks (s : Separators) (thousands decimal : Char) : Prop where
  thousands_eq : s.thousands.toList = [thousands]
  decimal_eq : s.decimal.toList = [decimal]
  ne : thousands ≠ decimal
  not_digit : thousands.isDigit = false ∧ decimal.isDigit = false
  not_sign : thousands ≠ '-' ∧ decimal ≠ '-'

/-- Every language separates by such characters. -/
theorem exists_marks (lang : String) :
    ∃ thousands decimal, (ofLang lang).Marks thousands decimal := by
  unfold ofLang
  dsimp only
  split
  · exact ⟨'.', ',', by constructor <;> decide⟩
  · split
    · exact ⟨Char.ofNat 0xA0, ',', by constructor <;> decide⟩
    · exact ⟨',', '.', by constructor <;> decide⟩

/-- Whether a character separates groups. -/
def partsGroups (s : Separators) (c : Char) : Bool := s.thousands.toList.contains c

/-- Whether a character separates the decimals. -/
def partsDecimals (s : Separators) (c : Char) : Bool := s.decimal.toList.contains c

/-- What stands in front of the decimals. -/
def wholePart (s : Separators) (text : List Char) : List Char :=
  text.takeWhile fun c => !s.partsDecimals c

/-- The groups in front of the decimals. -/
def groups (s : Separators) (text : List Char) : List (List Char) :=
  splitAtEach s.partsGroups (s.wholePart text)

/-- A grouped number without separators of groups, and with a point before the decimals. -/
def plain (s : Separators) (text : List Char) : List Char :=
  ((s.wholePart text).filter fun c => !s.partsGroups c) ++
    (text.dropWhile fun c => !s.partsDecimals c).map fun c =>
      if s.partsDecimals c then '.' else c

/-- Grouped digits, and the decimals if there are any. -/
def written (s : Separators) (whole fraction : List Char) : List Char :=
  groupDigits s.thousands.toList whole ++
    if fraction.isEmpty then [] else s.decimal.toList ++ fraction

namespace Marks

variable {s : Separators} {thousands decimal c : Char} {front sign whole fraction : List Char}

/-- Only the one character separates groups. -/
theorem partsGroups_iff (h : s.Marks thousands decimal) :
    s.partsGroups c = true ↔ c = thousands := by
  simp [partsGroups, h.thousands_eq]

/-- Only the other one separates the decimals. -/
theorem partsDecimals_iff (h : s.Marks thousands decimal) :
    s.partsDecimals c = true ↔ c = decimal := by
  simp [partsDecimals, h.decimal_eq]

/-- Digits separate nothing. -/
theorem partsGroups_of_isDigit (h : s.Marks thousands decimal) (hc : c.isDigit = true) :
    s.partsGroups c = false := by
  rw [Bool.eq_false_iff, Ne, h.partsGroups_iff]
  rintro rfl
  exact Bool.false_ne_true (h.not_digit.1.symm.trans hc)

/-- Digits do not separate the decimals. -/
theorem partsDecimals_of_isDigit (h : s.Marks thousands decimal) (hc : c.isDigit = true) :
    s.partsDecimals c = false := by
  rw [Bool.eq_false_iff, Ne, h.partsDecimals_iff]
  rintro rfl
  exact Bool.false_ne_true (h.not_digit.2.symm.trans hc)

/-- Grouped digits have no separator of decimals. -/
theorem partsDecimals_of_mem_groupDigits (h : s.Marks thousands decimal)
    (hwhole : AllDigits whole) (hc : c ∈ groupDigits [thousands] whole) :
    s.partsDecimals c = false := by
  rcases mem_groupDigits hc with hdigit | rfl
  · exact h.partsDecimals_of_isDigit (hwhole c hdigit)
  · rw [Bool.eq_false_iff, Ne, h.partsDecimals_iff]
    exact h.ne

/-- The decimals begin where they are separated. -/
theorem parts_append (h : s.Marks thousands decimal)
    (hfront : ∀ c ∈ front, s.partsDecimals c = false) (fraction : List Char) :
    (front ++ if fraction.isEmpty then [] else decimal :: fraction).takeWhile
        (fun c => !s.partsDecimals c) = front ∧
      (front ++ if fraction.isEmpty then [] else decimal :: fraction).dropWhile
        (fun c => !s.partsDecimals c) = if fraction.isEmpty then [] else decimal :: fraction := by
  have hall : ∀ c ∈ front, (!s.partsDecimals c) = true := fun c hc => by rw [hfront c hc]; rfl
  have hmark : s.partsDecimals decimal = true := h.partsDecimals_iff.2 rfl
  rw [List.takeWhile_append_of_pos hall, List.dropWhile_append_of_pos hall]
  split <;> simp [hmark]

/-- Grouped digits and decimals with the characters that separate them. -/
theorem written_eq (h : s.Marks thousands decimal) (whole fraction : List Char) :
    s.written whole fraction = groupDigits [thousands] whole ++
      if fraction.isEmpty then [] else decimal :: fraction := by
  rw [written, h.thousands_eq, h.decimal_eq]
  rfl

/-- A written number, behind signs, without its separators. -/
theorem plain_written (h : s.Marks thousands decimal) (hsign : ∀ c ∈ sign, c = '-')
    (hwhole : AllDigits whole) (hfraction : AllDigits fraction) :
    s.plain (sign ++ s.written whole fraction) = sign ++ pointed whole fraction := by
  have hfront : ∀ c ∈ sign ++ groupDigits [thousands] whole, s.partsDecimals c = false := by
    rw [List.forall_mem_append]
    refine ⟨fun c hc => ?_, fun c hc => h.partsDecimals_of_mem_groupDigits hwhole hc⟩
    rw [hsign c hc, Bool.eq_false_iff, Ne, h.partsDecimals_iff]
    exact h.not_sign.2.symm
  have hkept : sign.filter (fun c => !s.partsGroups c) = sign := by
    rw [List.filter_eq_self]
    intro c hc
    rw [hsign c hc, Bool.not_eq_true', Bool.eq_false_iff, Ne, h.partsGroups_iff]
    exact h.not_sign.1.symm
  have hdigits : (groupDigits [thousands] whole).filter (fun c => !s.partsGroups c) = whole :=
    filter_groupDigits (h.partsGroups_iff.2 rfl) fun c hc =>
      h.partsGroups_of_isDigit (hwhole c hc)
  have hsame : fraction.map (fun c => if s.partsDecimals c then '.' else c) = fraction := by
    conv_rhs => rw [← List.map_id fraction]
    apply List.map_congr_left
    intro c hc
    rw [if_neg (by simp [h.partsDecimals_of_isDigit (hfraction c hc)]), id]
  obtain ⟨htake, hdrop⟩ := h.parts_append hfront fraction
  rw [h.written_eq, ← List.append_assoc, plain, wholePart, htake, hdrop, List.filter_append, hkept,
    hdigits, pointed, List.append_assoc]
  split
  · rfl
  · rw [List.map_cons, if_pos (h.partsDecimals_iff.2 rfl), hsame]

/-- The groups of a written number. -/
theorem groups_written (h : s.Marks thousands decimal) (hwhole : AllDigits whole)
    (hne : whole ≠ []) (fraction : List Char) :
    ∃ first others, s.groups (s.written whole fraction) = first :: others ∧
      (first :: others).flatten = whole ∧ 1 ≤ first.length ∧ first.length ≤ 3 ∧
      ∀ group ∈ others, group.length = 3 := by
  have hfront : ∀ c ∈ groupDigits [thousands] whole, s.partsDecimals c = false :=
    fun c hc => h.partsDecimals_of_mem_groupDigits hwhole hc
  obtain ⟨first, others, hsplit, hflat, hlength, hthree⟩ :=
    splitAtEach_groupDigits (h.partsGroups_iff.2 rfl)
      (fun c hc => h.partsGroups_of_isDigit (hwhole c hc)) hne
  refine ⟨first, others, ?_, hflat, by omega, by omega, hthree⟩
  rw [groups, wholePart, h.written_eq, (h.parts_append hfront fraction).1, hsplit]

end Marks

end Separators

/-! ## Numbers and amounts -/

namespace Formatter

variable (f : Formatter) (d : Double) (places : ℕ)

/-- The sign of a number in fixed places. -/
def signOf (places : ℕ) (d : Double) : List Char :=
  if showsSign (.finite d) (d.fixedDigits places).1 (d.fixedDigits places).2 then ['-'] else []

/-- A sign is a minus, or missing. -/
theorem signOf_cases : signOf places d = [] ∨ signOf places d = ['-'] := by
  unfold signOf
  split
  · exact .inr rfl
  · exact .inl rfl

/-- Only numbers below zero have a sign, and only if they are not written with zeros alone. -/
theorem signOf_eq_iff :
    signOf places d = ['-'] ↔ d.value < 0 ∧ ∃ c ∈ d.fixed places, c.isDigit = true ∧ c ≠ '0' := by
  have hshown : signOf places d = ['-'] ↔
      showsSign (.finite d) (d.fixedDigits places).1 (d.fixedDigits places).2 = true := by
    simp [signOf]
  rw [hshown, showsSign, Bool.and_eq_true, Double.Extended.isNegative, ← Double.value_neg_iff,
    List.any_eq_true]
  refine and_congr_right fun _ => exists_congr fun c => ?_
  rw [Bool.and_eq_true, bne_iff_ne]
  refine and_congr_left fun hc => (mem_pointed_iff ?_).symm
  rintro rfl
  exact absurd hc.1 (by decide)

/-- The sign of a number, as characters. -/
theorem toList_sign :
    (if showsSign (.finite d) (d.fixedDigits places).1 (d.fixedDigits places).2 then "-"
      else "").toList = signOf places d := by
  unfold signOf
  split <;> rfl

/-- The digits of a number, as characters. -/
theorem toList_unsigned (whole fraction : List Char) :
    (f.unsigned whole fraction).toList = f.separators.written whole fraction := by
  unfold unsigned Separators.written
  dsimp only
  rw [String.toList_append, String.toList_ofList]
  split <;> simp

/-- The digits of a number with their separators. -/
def amountOf (places : ℕ) (d : Double) : List Char :=
  f.separators.written (d.fixedDigits places).1 (d.fixedDigits places).2

/-- A number is its sign and its digits with separators. -/
theorem toList_number :
    (f.number (.finite d) places).toList = signOf places d ++ f.amountOf places d := by
  unfold number magnitudeDigits
  dsimp only
  rw [String.toList_append, toList_sign, toList_unsigned]
  rfl

/-- Without its separators, a number is its sign and the number in fixed places. -/
theorem plain_number :
    f.separators.plain (f.number (.finite d) places).toList =
      signOf places d ++ d.fixed places := by
  obtain ⟨thousands, decimal, hmarks⟩ := Separators.exists_marks f.lang
  have hparts := d.fixedParts_fixedDigits places
  have hsign : ∀ c ∈ signOf places d, c = '-' := by
    rcases signOf_cases d places with hnone | hsome
    · simp [hnone]
    · simp [hsome]
  rw [toList_number]
  exact hmarks.plain_written hsign hparts.isWhole.digit hparts.digit

/-- The digits of a number begin with a digit. -/
theorem exists_amountOf_eq_cons :
    ∃ digit rest, f.amountOf places d = digit :: rest ∧ digit.isDigit = true := by
  have hwhole := (d.fixedParts_fixedDigits places).isWhole
  obtain ⟨digit, rest, hdigits⟩ := List.exists_cons_of_ne_nil hwhole.ne_nil
  obtain ⟨tail, htail⟩ := exists_groupDigits_eq_cons f.separators.thousands.toList digit rest
  have hamount : f.amountOf places d = digit :: (tail ++
      if (d.fixedDigits places).2.isEmpty then []
      else f.separators.decimal.toList ++ (d.fixedDigits places).2) := by
    rw [amountOf, Separators.written, hdigits, htail, List.cons_append]
  exact ⟨digit, _, hamount, hwhole.digit digit (hdigits ▸ List.mem_cons_self)⟩

/-- Where a point separates the decimals, the symbol of an amount stands behind the sign, elsewhere
behind the digits. -/
theorem toList_currency (code : String) :
    (f.currency (.finite d) code places).toList =
      if f.separators.decimal = "." then
        signOf places d ++ (currencySymbol code).toList ++ f.amountOf places d
      else signOf places d ++ f.amountOf places d ++ noBreakSpace.toList ++
        (currencySymbol code).toList := by
  have hnumber := f.toList_number d places
  obtain ⟨digit, rest, hamount, hdigit⟩ := f.exists_amountOf_eq_cons d places
  unfold currency
  dsimp only
  split
  · -- A sign at the front is that of the number, as the digits do not begin with one.
    rcases signOf_cases d places with hnone | hsome
    · rw [hnone, List.nil_append, hamount] at hnumber
      rw [hnumber, hnone, hamount]
      split
      · rename_i heq
        cases heq
        exact absurd hdigit (by decide)
      · rw [String.toList_append, hnumber, List.nil_append]
    · rw [hsome] at hnumber
      simp only [hnumber, hsome, String.toList_append, String.toList_ofList, List.append_assoc,
        List.cons_append]
      rfl
  · simp only [String.toList_append, hnumber, List.append_assoc]

/-- In every language, a number without its separators is the one notation of its magnitude in fixed
places, behind a sign if it is below zero and not written with zeros alone; three digits stand in
each group but the first, which has one to three.  An amount of money has the same sign and digits,
with the symbol between them or behind a no-break space at the end. -/
theorem number_and_currency (code : String) :
    ∃ fixed sign amount : List Char,
      (∀ text, IsFixed places d.magnitude text ↔ text = fixed) ∧
      (sign = [] ∨ sign = ['-']) ∧
      (sign = ['-'] ↔ d.value < 0 ∧ ∃ c ∈ fixed, c.isDigit = true ∧ c ≠ '0') ∧
      (f.number (.finite d) places).toList = sign ++ amount ∧
      f.separators.plain (f.number (.finite d) places).toList = sign ++ fixed ∧
      (∃ first others, f.separators.groups amount = first :: others ∧
        AllDigits (first :: others).flatten ∧ 1 ≤ first.length ∧ first.length ≤ 3 ∧
        ∀ group ∈ others, group.length = 3) ∧
      (f.currency (.finite d) code places).toList =
        if f.separators.decimal = "." then sign ++ (currencySymbol code).toList ++ amount
        else sign ++ amount ++ noBreakSpace.toList ++ (currencySymbol code).toList := by
  obtain ⟨thousands, decimal, hmarks⟩ := Separators.exists_marks f.lang
  have hwhole := (d.fixedParts_fixedDigits places).isWhole
  obtain ⟨first, others, hgroups, hflat, hpos, hle, hthree⟩ :=
    hmarks.groups_written hwhole.digit hwhole.ne_nil (d.fixedDigits places).2
  exact ⟨d.fixed places, signOf places d, f.amountOf places d, d.isFixed_iff places,
    signOf_cases d places, signOf_eq_iff d places, f.toList_number d places,
    f.plain_number d places, ⟨first, others, hgroups, hflat ▸ hwhole.digit, hpos, hle, hthree⟩,
    f.toList_currency d places code⟩

/-- A debt of pesos, first as it is written in Mexico, where the points of Spanish group digits, and
then in English. -/
theorem number_and_currency_debt :
    ((Formatter.mk "es-MX").number (.finite (.ofInt (-1234567))) 2).toList =
        "-1.234.567,00".toList ∧
      ((Formatter.mk "es-MX").currency (.finite (.ofInt (-1234567))) "MXN" 2).toList =
        "-1.234.567,00".toList ++ noBreakSpace.toList ++ ['$'] ∧
      ((Formatter.mk "en").currency (.finite (.ofInt (-1234567))) "mxn" 2).toList =
        "-$1,234,567.00".toList := by
  have hwritten : ((Formatter.mk "es-MX").number (.finite (.ofInt (-1234567))) 2).toList =
      "-1.234.567,00".toList := by
    decide +kernel
  obtain ⟨-, sign, amount, -, -, -, hnumber, -, -, hcurrency⟩ :=
    number_and_currency (.mk "es-MX") (.ofInt (-1234567)) 2 "MXN"
  refine ⟨hwritten, ?_, by decide +kernel⟩
  rw [hcurrency, if_neg (by decide +kernel), ← hnumber, hwritten]
  decide +kernel

end Formatter

end ViewSchema
