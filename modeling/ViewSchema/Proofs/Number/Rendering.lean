import Mathlib.Data.List.TakeWhile
import ViewSchema.Number.Decimal
import ViewSchema.Proofs.Number.Shortest

/-!
# Reading rendered doubles

A rendered double is decimal notation of its shortest decimal: from the text one reads the sign
and the value of that decimal, whatever the layout.  So the texts of doubles tell them apart.

Main results:

- Definition `Double.readValue`: the exact value of decimal notation.
- Theorem `Double.readSigned_render`: the sign and the value that a rendered double reads as.
- Theorem `Double.render_inj`: canonical doubles with the same text are the same.
-/

namespace ViewSchema

/-! ## Digits -/

/-- The value of digits is that of the library. -/
theorem ofDigits_eq (digits : List Char) : ofDigits digits = Nat.ofDigitChars 10 digits 0 :=
  Nat.ofDigitChars_eq_foldl.symm

/-- The digits of a number have its value. -/
theorem ofDigits_toDigits (n : Nat) : ofDigits (Nat.toDigits 10 n) = n := by
  rw [ofDigits_eq, Nat.ofDigitChars_ten_toDigits]

/-- The first of two digit sequences counts as often as the second one has places. -/
theorem ofDigits_append (xs ys : List Char) :
    ofDigits (xs ++ ys) = ofDigits xs * 10 ^ ys.length + ofDigits ys := by
  rw [ofDigits_eq, ofDigits_eq, ofDigits_eq, Nat.ofDigitChars_append,
    Nat.ofDigitChars_eq_ofDigitChars_zero, Nat.mul_comm]

/-- Zeros have no value. -/
theorem ofDigits_replicate_zero (n : Nat) : ofDigits (List.replicate n '0') = 0 := by
  induction n with
  | zero => rfl
  | succ n ih =>
    rw [List.replicate_succ, ← List.singleton_append, ofDigits_append, ih]
    simp [ofDigits, digitValue]

namespace Double

/-- Digits without the zeros at their end, and these. -/
theorem trimZeros_append (digits : List Char) :
    (trimZeros digits).1 ++ List.replicate (trimZeros digits).2 '0' = digits := by
  have hsplit := List.takeWhile_append_dropWhile (p := (· == '0')) (l := digits.reverse)
  have hzeros : digits.reverse.takeWhile (· == '0') =
      List.replicate (trimZeros digits).2 '0' := by
    rw [List.eq_replicate_iff]
    constructor
    · have hlength := congrArg List.length hsplit
      rw [List.length_append, List.length_reverse] at hlength
      simp only [trimZeros, List.length_reverse]
      omega
    · intro c hc
      simpa using List.mem_takeWhile_imp hc
  rw [hzeros] at hsplit
  have hreversed := congrArg List.reverse hsplit
  rwa [List.reverse_append, List.reverse_replicate, List.reverse_reverse] at hreversed

/-- Trimmed digits are digits. -/
theorem mem_of_mem_trimZeros {digits : List Char} {c : Char} (h : c ∈ (trimZeros digits).1) :
    c ∈ digits := by
  unfold trimZeros at h
  rw [List.mem_reverse] at h
  exact List.mem_reverse.1 (List.dropWhile_subset _ h)

/-! ## Decimal notation -/

/-- The exact value of an unsigned decimal: digits with an optional point among them, and an
optional exponent. -/
def readValue (cs : List Char) : ℚ :=
  let (whole, afterWhole) := takeDigits cs
  let (fraction, rest) := match afterWhole with
    | '.' :: r => takeDigits r
    | r => ([], r)
  ofDigits (whole ++ fraction) * 10 ^ ((readExponent? rest).getD 0 - fraction.length)

/-- What ends a sequence of digits. -/
def EndsDigits (rest : List Char) : Prop := ∀ c, rest.head? = some c → c.isDigit = false

/-- The end of a text ends a digit sequence. -/
theorem endsDigits_nil : EndsDigits [] := by simp [EndsDigits]

/-- A digit sequence is taken up to what ends it. -/
theorem takeDigits_append {digits rest : List Char} (h : ∀ c ∈ digits, c.isDigit = true)
    (hrest : EndsDigits rest) : takeDigits (digits ++ rest) = (digits, rest) := by
  unfold takeDigits
  rw [List.takeWhile_append_of_pos h, List.dropWhile_append_of_pos h]
  cases rest with
  | nil => simp
  | cons c cs => simp [hrest c rfl]

variable {whole fraction rest : List Char}

/-- A decimal with a point and an exponent. -/
theorem readValue_point (hwhole : ∀ c ∈ whole, c.isDigit = true)
    (hfraction : ∀ c ∈ fraction, c.isDigit = true) (hrest : EndsDigits rest) :
    readValue (whole ++ '.' :: (fraction ++ rest)) =
      ofDigits (whole ++ fraction) * 10 ^ ((readExponent? rest).getD 0 - fraction.length) := by
  have hpoint : EndsDigits ('.' :: (fraction ++ rest)) := by
    rintro c ⟨⟩
    decide
  unfold readValue
  simp only [takeDigits_append hwhole hpoint, takeDigits_append hfraction hrest]

/-- A decimal with a point. -/
theorem readValue_fraction (hwhole : ∀ c ∈ whole, c.isDigit = true)
    (hfraction : ∀ c ∈ fraction, c.isDigit = true) :
    readValue (whole ++ '.' :: fraction) =
      ofDigits (whole ++ fraction) * 10 ^ (-fraction.length : ℤ) := by
  have hread := readValue_point hwhole hfraction endsDigits_nil
  simpa [readExponent?] using hread

/-- A decimal without a point. -/
theorem readValue_whole (hwhole : ∀ c ∈ whole, c.isDigit = true) (hrest : EndsDigits rest)
    (hpoint : ∀ tail, rest ≠ '.' :: tail) :
    readValue (whole ++ rest) = ofDigits whole * 10 ^ (readExponent? rest).getD 0 := by
  unfold readValue
  rw [takeDigits_append hwhole hrest]
  dsimp only
  split
  · rename_i tail
    exact absurd rfl (hpoint tail)
  · simp

/-- An exponent with its sign. -/
theorem readExponent?_mark (negative : Bool) {digits : List Char} (hne : digits ≠ [])
    (hdigits : ∀ c ∈ digits, c.isDigit = true) :
    readExponent? ('e' :: (if negative then '-' else '+') :: digits) =
      some (if negative then -(ofDigits digits : ℤ) else ofDigits digits) := by
  have hall : digits.all Char.isDigit = true := List.all_eq_true.2 hdigits
  have hempty : digits.isEmpty = false := List.isEmpty_eq_false_iff.2 hne
  cases negative <;> simp [readExponent?, hall, hempty]

/-! ## Layouts -/

/-- Digits with the power of ten of the last one, as a layout writes them. -/
def laidOut (layout : Layout) (digits : List Char) (exponent : Int) : List Char :=
  let leading := exponent + digits.length - 1
  if layout.least ≤ leading ∧ leading < layout.limit then
    if 0 ≤ exponent then digits ++ List.replicate exponent.toNat '0' ++ ['.', '0']
    else if 0 ≤ leading then
      digits.take (leading + 1).toNat ++ '.' :: digits.drop (leading + 1).toNat
    else '0' :: '.' :: (List.replicate (-leading - 1).toNat '0' ++ digits)
  else
    digits.take 1 ++ (if (digits.drop 1).isEmpty then [] else ['.']) ++ digits.drop 1 ++
      'e' :: (if leading < 0 then '-' else '+') :: Nat.toDigits 10 leading.natAbs

/-- A rendered double is its sign and its shortest decimal, laid out. -/
theorem toList_render (layout : Layout) (d : Double) (h : d.isZero = false) :
    (d.render layout).toList = (if d.negative then ['-'] else []) ++
      laidOut layout (trimZeros (Nat.toDigits 10 d.shortestDigits.digits)).1
        (d.shortestDigits.exponent +
          (trimZeros (Nat.toDigits 10 d.shortestDigits.digits)).2) := by
  have hsign : (if d.negative then "-" else "").toList = if d.negative then ['-'] else [] := by
    cases d.negative <;> rfl
  unfold render laidOut
  dsimp only
  rw [h]
  simp only [Bool.false_eq_true, if_false, String.toList_append, hsign]
  congr 1
  split
  · split
    · simp
    · split <;> simp
  · split <;> split <;> simp_all

/-- Both zeros are rendered alike but for the sign. -/
theorem toList_render_zero (layout : Layout) (d : Double) (h : d.isZero = true) :
    (d.render layout).toList = (if d.negative then ['-'] else []) ++ ['0', '.', '0'] := by
  unfold render
  dsimp only
  rw [if_pos h]
  cases d.negative <;> rfl

section LaidOut

variable {digits : List Char} {exponent : Int}

/-- Zeros behind digits move the power of ten of the last one. -/
theorem ofDigits_zeros (digits : List Char) (n : Nat) :
    ofDigits (digits ++ List.replicate n '0') = ofDigits digits * 10 ^ n := by
  rw [ofDigits_append, ofDigits_replicate_zero, List.length_replicate, Nat.add_zero]

/-- Zeros before digits change nothing. -/
theorem ofDigits_leading (digits : List Char) (n : Nat) :
    ofDigits (List.replicate n '0' ++ digits) = ofDigits digits := by
  rw [ofDigits_append, ofDigits_replicate_zero, Nat.zero_mul, Nat.zero_add]

/-- Zeros are digits. -/
theorem isDigit_of_mem_replicate {n : Nat} : ∀ c ∈ List.replicate n '0', c.isDigit = true := by
  intro c hc
  rw [List.eq_of_mem_replicate hc]
  rfl

/-- Digits, zeros behind them, and a point with a zero. -/
theorem readValue_zeros (hdigits : ∀ c ∈ digits, c.isDigit = true) (n : Nat) :
    readValue (digits ++ List.replicate n '0' ++ ['.', '0']) = ofDigits digits * 10 ^ n := by
  have hwhole : ∀ c ∈ digits ++ List.replicate n '0', c.isDigit = true := by
    rw [List.forall_mem_append]
    exact ⟨hdigits, isDigit_of_mem_replicate⟩
  have hzero : ∀ c ∈ ['0'], c.isDigit = true := isDigit_of_mem_replicate (n := 1)
  have hvalue : ofDigits (digits ++ List.replicate n '0' ++ ['0']) =
      ofDigits digits * 10 ^ (n + 1) := by
    rw [List.append_assoc, ← List.replicate_succ', ofDigits_zeros]
  rw [readValue_fraction hwhole hzero, hvalue, List.length_singleton]
  push_cast
  rw [pow_succ, zpow_neg_one]
  field_simp

/-- Digits with a point among them. -/
theorem readValue_amid (hdigits : ∀ c ∈ digits, c.isDigit = true) {count : Nat}
    (h : count ≤ digits.length) :
    readValue (digits.take count ++ '.' :: digits.drop count) =
      ofDigits digits * 10 ^ ((count : ℤ) - digits.length) := by
  have hwhole : ∀ c ∈ digits.take count, c.isDigit = true :=
    fun c hc => hdigits c (List.mem_of_mem_take hc)
  have hfraction : ∀ c ∈ digits.drop count, c.isDigit = true :=
    fun c hc => hdigits c (List.mem_of_mem_drop hc)
  rw [readValue_fraction hwhole hfraction, List.take_append_drop, List.length_drop,
    Nat.cast_sub h, neg_sub]

/-- A point, zeros and digits. -/
theorem readValue_below (hdigits : ∀ c ∈ digits, c.isDigit = true) (n : Nat) :
    readValue ('0' :: '.' :: (List.replicate n '0' ++ digits)) =
      ofDigits digits * 10 ^ (-(n : ℤ) - digits.length) := by
  have hzero : ∀ c ∈ ['0'], c.isDigit = true := isDigit_of_mem_replicate (n := 1)
  have hfraction : ∀ c ∈ List.replicate n '0' ++ digits, c.isDigit = true := by
    rw [List.forall_mem_append]
    exact ⟨isDigit_of_mem_replicate, hdigits⟩
  have hvalue : ofDigits (['0'] ++ (List.replicate n '0' ++ digits)) = ofDigits digits := by
    rw [← List.append_assoc, List.singleton_append, ← List.replicate_succ, ofDigits_leading]
  rw [← List.singleton_append, readValue_fraction hzero hfraction, hvalue, List.length_append,
    List.length_replicate]
  push_cast
  rw [neg_add']

/-- One digit before the point, and an exponent. -/
theorem readValue_scientific (hdigits : ∀ c ∈ digits, c.isDigit = true) (hne : digits ≠ [])
    (leading : Int) :
    readValue (digits.take 1 ++ (if (digits.drop 1).isEmpty then [] else ['.']) ++
        digits.drop 1 ++
        'e' :: (if leading < 0 then '-' else '+') :: Nat.toDigits 10 leading.natAbs) =
      ofDigits digits * 10 ^ (leading + 1 - digits.length) := by
  have hexponentDigits : ∀ c ∈ Nat.toDigits 10 leading.natAbs, c.isDigit = true :=
    fun c hc => Nat.isDigit_of_mem_toDigits (by decide) (by decide) hc
  have hexponent : readExponent?
      ('e' :: (if leading < 0 then '-' else '+') :: Nat.toDigits 10 leading.natAbs) =
        some leading := by
    have hmark := readExponent?_mark (decide (leading < 0)) Nat.toDigits_ne_nil hexponentDigits
    rw [ofDigits_toDigits] at hmark
    simp only [decide_eq_true_eq] at hmark
    rw [hmark]
    congr 1
    split <;> omega
  have hend : EndsDigits ('e' :: (if leading < 0 then '-' else '+') ::
      Nat.toDigits 10 leading.natAbs) := by
    rintro c ⟨⟩
    decide
  have hwhole : ∀ c ∈ digits.take 1, c.isDigit = true :=
    fun c hc => hdigits c (List.mem_of_mem_take hc)
  have hfraction : ∀ c ∈ digits.drop 1, c.isDigit = true :=
    fun c hc => hdigits c (List.mem_of_mem_drop hc)
  have hlength : 1 ≤ digits.length := List.length_pos_iff.2 hne
  by_cases hsingle : (digits.drop 1).isEmpty = true
  · have hnil : digits.drop 1 = [] := List.isEmpty_iff.1 hsingle
    have hone : digits.length = 1 := by
      have hshort := List.drop_eq_nil_iff.1 hnil
      omega
    have hread := readValue_whole hwhole hend (by simp)
    rw [if_pos hsingle, hnil, List.append_nil, List.append_nil, hread, hexponent,
      List.take_of_length_le hone.le, hone]
    simp
  · rw [if_neg hsingle]
    have hread := readValue_point hwhole hfraction hend
    rw [List.take_append_drop, hexponent, List.length_drop, Nat.cast_sub hlength] at hread
    rw [List.append_assoc, List.append_assoc, List.singleton_append]
    refine hread.trans ?_
    congr 2
    simp
    omega

/-- Digits that are laid out read as their number and power of ten. -/
theorem readValue_laidOut (layout : Layout) (hdigits : ∀ c ∈ digits, c.isDigit = true)
    (hne : digits ≠ []) (exponent : Int) :
    readValue (laidOut layout digits exponent) = ofDigits digits * 10 ^ exponent := by
  unfold laidOut
  dsimp only
  split
  · split
    · rename_i hwhole
      obtain ⟨n, rfl⟩ := Int.eq_ofNat_of_zero_le hwhole
      rw [Int.toNat_natCast, readValue_zeros hdigits, zpow_natCast]
    · split
      · rename_i hamid
        rw [readValue_amid hdigits (by omega)]
        congr 2
        omega
      · rename_i hbelow
        rw [readValue_below hdigits]
        congr 2
        omega
  · rw [readValue_scientific hdigits hne]
    congr 2
    omega

/-- What is laid out begins with a digit. -/
theorem exists_cons_laidOut (layout : Layout) (hdigits : ∀ c ∈ digits, c.isDigit = true)
    (hne : digits ≠ []) (exponent : Int) :
    ∃ c rest, laidOut layout digits exponent = c :: rest ∧ c.isDigit = true := by
  obtain ⟨c, rest, rfl⟩ := List.exists_cons_of_ne_nil hne
  have hfirst : c.isDigit = true := hdigits c List.mem_cons_self
  unfold laidOut
  dsimp only
  split
  · split
    · exact ⟨c, _, rfl, hfirst⟩
    · split
      · rename_i hamid
        obtain ⟨n, hn⟩ : ∃ n, (exponent + ((c :: rest).length : ℤ) - 1 + 1).toNat = n + 1 :=
          ⟨(exponent + ((c :: rest).length : ℤ) - 1).toNat, by omega⟩
        rw [hn]
        exact ⟨c, _, rfl, hfirst⟩
      · exact ⟨'0', _, rfl, rfl⟩
  · exact ⟨c, _, rfl, hfirst⟩

end LaidOut

/-! ## Rendered doubles -/

/-- The sign of a decimal and the value of what follows it. -/
def readSigned : List Char → Bool × ℚ
  | '-' :: rest => (true, readValue rest)
  | cs => (false, readValue cs)

/-- A sign in front of a digit is read as a sign. -/
theorem readSigned_append (negative : Bool) {c : Char} {body rest : List Char}
    (hbody : body = c :: rest) (hdigit : c.isDigit = true) :
    readSigned ((if negative then ['-'] else []) ++ body) = (negative, readValue body) := by
  cases negative with
  | true => rfl
  | false =>
    subst hbody
    have hne : c ≠ '-' := by
      rintro rfl
      exact absurd hdigit (by decide)
    simp only [Bool.false_eq_true, if_false, List.nil_append]
    unfold readSigned
    split
    · rename_i heq
      exact absurd (List.cons.inj heq).1 hne
    · rfl

/-- The trimmed digits of a decimal, with the zeros that were dropped, are the decimal. -/
theorem ofDigits_trimZeros (decimal : Decimal) :
    (ofDigits (trimZeros (Nat.toDigits 10 decimal.digits)).1 : ℚ) *
        10 ^ (decimal.exponent + (trimZeros (Nat.toDigits 10 decimal.digits)).2) =
      decimal.value := by
  have hdigits : decimal.digits = ofDigits (trimZeros (Nat.toDigits 10 decimal.digits)).1 *
      10 ^ (trimZeros (Nat.toDigits 10 decimal.digits)).2 := by
    rw [← ofDigits_zeros, trimZeros_append, ofDigits_toDigits]
  have hcast : (decimal.digits : ℚ) =
      ofDigits (trimZeros (Nat.toDigits 10 decimal.digits)).1 *
        10 ^ (trimZeros (Nat.toDigits 10 decimal.digits)).2 := by
    exact_mod_cast hdigits
  rw [Decimal.value, hcast, zpow_add₀ (by norm_num), zpow_natCast]
  ring

variable {d d' : Double}

/-- The shortest digits of a value that is not zero have a value. -/
theorem shortestDigits_value_pos (hd : d.Canonical) (hm : 0 < d.mantissa) :
    0 < d.shortestDigits.value := by
  have hlower : 0 < d.lower := by
    have hmantissa : (1 : ℚ) ≤ d.mantissa := Nat.one_le_cast.2 hm
    have hgap : (d.gapBelow : ℚ) ≤ 2 := by
      rcases d.gapBelow_cases with hgap | hgap <;> simp [hgap.1]
    exact mul_pos (by linarith) d.quarter_pos
  exact hlower.trans_le (roundsTo_shortestDigits hd hm).lower_le

/-- Both zeros are rendered as zeros. -/
theorem readSigned_render_zero (layout : Layout) (h : d.isZero = true) :
    readSigned (d.render layout).toList = (d.negative, 0) := by
  have hvalue : readValue ['0', '.', '0'] = 0 := by
    have hzero : ∀ c ∈ ['0'], c.isDigit = true := isDigit_of_mem_replicate (n := 1)
    have hread := readValue_fraction hzero hzero
    rw [show ofDigits (['0'] ++ ['0']) = 0 from rfl, Nat.cast_zero, zero_mul] at hread
    exact hread
  rw [toList_render_zero layout d h, readSigned_append d.negative rfl rfl, hvalue]

/-- Other doubles are rendered as their sign and their shortest decimal. -/
theorem readSigned_render (layout : Layout) (hd : d.Canonical) (hm : 0 < d.mantissa) :
    readSigned (d.render layout).toList = (d.negative, d.shortestDigits.value) := by
  have hzero : d.isZero = false := by
    rw [isZero, beq_eq_false_iff_ne]
    exact hm.ne'
  have hvalue := ofDigits_trimZeros d.shortestDigits
  have hdigits : ∀ c ∈ (trimZeros (Nat.toDigits 10 d.shortestDigits.digits)).1,
      c.isDigit = true := fun c hc =>
    Nat.isDigit_of_mem_toDigits (by decide) (by decide) (mem_of_mem_trimZeros hc)
  have hne : (trimZeros (Nat.toDigits 10 d.shortestDigits.digits)).1 ≠ [] := by
    intro hnil
    have hpos := shortestDigits_value_pos hd hm
    rw [← hvalue, hnil] at hpos
    simp [ofDigits] at hpos
  obtain ⟨c, rest, hcons, hfirst⟩ := exists_cons_laidOut layout hdigits hne _
  rw [toList_render layout d hzero, readSigned_append d.negative hcons hfirst,
    readValue_laidOut layout hdigits hne, hvalue]

/-- Zeros have the least exponent. -/
theorem Canonical.exponent_of_zero (hd : d.Canonical) (hm : d.mantissa = 0) :
    d.exponent = minExponent := by
  rcases hd.full with hleast | hfull
  · exact hleast
  · rw [hm] at hfull
    exact absurd hfull (by decide)

/-- A zero is not rendered like another double. -/
theorem readSigned_render_ne (layout : Layout) (hd' : d'.Canonical) (hm : d.mantissa = 0)
    (hm' : 0 < d'.mantissa) :
    readSigned (d.render layout).toList ≠ readSigned (d'.render layout).toList := by
  rw [readSigned_render_zero layout (by rw [isZero, hm]; rfl), readSigned_render layout hd' hm']
  intro heq
  exact (shortestDigits_value_pos hd' hm').ne (Prod.mk.inj heq).2

/-- The texts of canonical doubles tell them apart. -/
theorem render_inj (layout : Layout) (hd : d.Canonical) (hd' : d'.Canonical)
    (h : d.render layout = d'.render layout) : d = d' := by
  have hread := congrArg readSigned (congrArg String.toList h)
  have hparts : d.negative = d'.negative ∧ d.mantissa = d'.mantissa ∧
      d.exponent = d'.exponent := by
    rcases Nat.eq_zero_or_pos d.mantissa with hm | hm <;>
      rcases Nat.eq_zero_or_pos d'.mantissa with hm' | hm'
    · have hzero : d.isZero = true := by rw [isZero, hm]; rfl
      have hzero' : d'.isZero = true := by rw [isZero, hm']; rfl
      rw [readSigned_render_zero layout hzero, readSigned_render_zero layout hzero'] at hread
      exact ⟨(Prod.mk.inj hread).1, hm.trans hm'.symm,
        (hd.exponent_of_zero hm).trans (hd'.exponent_of_zero hm').symm⟩
    · exact absurd hread (readSigned_render_ne layout hd' hm hm')
    · exact absurd hread.symm (readSigned_render_ne layout hd hm' hm)
    · rw [readSigned_render layout hd hm, readSigned_render layout hd' hm'] at hread
      obtain ⟨hsign, hvalue⟩ := Prod.mk.inj hread
      exact ⟨hsign, eq_of_shortestDigits_value hd hd' hm hm' hvalue⟩
  cases d
  cases d'
  simp_all

end Double

end ViewSchema
