import ViewSchema.Json.Text
import ViewSchema.Proofs.Number.Rendering

/-!
# Texts of numbers

What the texts of numbers are made of, and that they tell numbers apart: integers and doubles
from each other by a point or the mark of an exponent, which only doubles have.

Main results:

- Theorem `Number.isTextChar_of_mem_text`: the characters in the text of a number.
- Definition `Number.ToldApart`: numbers of a kind are told apart by their texts.
- Theorem `Number.toldApart_canonical`: integers and canonical doubles are.
-/

namespace ViewSchema

/-! ## Characters -/

namespace Number

/-- The characters that texts of numbers are made of. -/
def isTextChar (c : Char) : Bool := c.isDigit || ['-', '+', '.', 'e'].contains c

theorem isTextChar_of_isDigit {c : Char} (h : c.isDigit = true) : isTextChar c = true := by
  simp [isTextChar, h]

theorem isTextChar_of_mem_toDigits {n : Nat} {c : Char} (h : c ∈ Nat.toDigits 10 n) :
    isTextChar c = true :=
  isTextChar_of_isDigit (Nat.isDigit_of_mem_toDigits (by decide) (by decide) h)

end Number

namespace Double

open Number (isTextChar isTextChar_of_isDigit isTextChar_of_mem_toDigits)

variable {digits : List Char} {exponent : Int}

/-- Digits that are laid out come with a point, the mark of an exponent and signs. -/
theorem isTextChar_of_mem_laidOut (layout : Layout) (hdigits : ∀ c ∈ digits, c.isDigit = true) :
    ∀ c ∈ laidOut layout digits exponent, isTextChar c = true := by
  have hdigit : ∀ c ∈ digits, isTextChar c = true :=
    fun c hc => isTextChar_of_isDigit (hdigits c hc)
  have hzeros : ∀ n, ∀ c ∈ List.replicate n '0', isTextChar c = true :=
    fun n c hc => isTextChar_of_isDigit (isDigit_of_mem_replicate c hc)
  have htake : ∀ n, ∀ c ∈ digits.take n, isTextChar c = true :=
    fun n c hc => hdigit c (List.mem_of_mem_take hc)
  have hdrop : ∀ n, ∀ c ∈ digits.drop n, isTextChar c = true :=
    fun n c hc => hdigit c (List.mem_of_mem_drop hc)
  have hexponent : ∀ n, ∀ c ∈ Nat.toDigits 10 n, isTextChar c = true :=
    fun n c => isTextChar_of_mem_toDigits
  unfold laidOut
  dsimp only
  split
  · split
    · simp only [List.forall_mem_append, List.forall_mem_cons]
      exact ⟨⟨hdigit, hzeros _⟩, rfl, rfl, by simp⟩
    · split
      · simp only [List.forall_mem_append, List.forall_mem_cons]
        exact ⟨htake _, rfl, hdrop _⟩
      · simp only [List.forall_mem_append, List.forall_mem_cons]
        exact ⟨rfl, rfl, hzeros _, hdigit⟩
  · simp only [List.forall_mem_append, List.forall_mem_cons]
    refine ⟨⟨⟨htake _, ?_⟩, hdrop _⟩, rfl, ?_, hexponent _⟩
    · split <;> simp [isTextChar]
    · split <;> rfl

/-- They have a point or the mark of an exponent. -/
theorem point_or_mark_mem_laidOut (layout : Layout) (digits : List Char) (exponent : Int) :
    '.' ∈ laidOut layout digits exponent ∨ 'e' ∈ laidOut layout digits exponent := by
  unfold laidOut
  dsimp only
  split
  · left
    split
    · simp
    · split <;> simp
  · right
    simp

/-- So have rendered doubles. -/
theorem isTextChar_of_mem_render (layout : Layout) (d : Double) :
    ∀ c ∈ (d.render layout).toList, isTextChar c = true := by
  have hsign : ∀ c ∈ (if d.negative then ['-'] else []), isTextChar c = true := by
    cases d.negative <;> simp [isTextChar]
  cases hzero : d.isZero with
  | true =>
    rw [toList_render_zero layout d hzero, List.forall_mem_append]
    exact ⟨hsign, by simp [isTextChar]⟩
  | false =>
    rw [toList_render layout d hzero, List.forall_mem_append]
    exact ⟨hsign, isTextChar_of_mem_laidOut layout fun c hc =>
      Nat.isDigit_of_mem_toDigits (by decide) (by decide) (mem_of_mem_trimZeros hc)⟩

theorem point_or_mark_mem_render (layout : Layout) (d : Double) :
    '.' ∈ (d.render layout).toList ∨ 'e' ∈ (d.render layout).toList := by
  cases hzero : d.isZero with
  | true =>
    rw [toList_render_zero layout d hzero]
    simp
  | false =>
    rw [toList_render layout d hzero, List.mem_append, List.mem_append]
    exact (point_or_mark_mem_laidOut layout _ _).imp .inr .inr

end Double

namespace Number

/-! ## Numbers -/

/-- The text of an integer is its sign and its digits. -/
theorem toList_text_int (i : Int) :
    (int i).text.toList =
      (if decide (i < 0) then ['-'] else []) ++ Nat.toDigits 10 i.natAbs := by
  rw [text, Int.toString_eq_repr, Int.repr_eq_if]
  rcases Int.lt_or_le i 0 with hneg | hpos
  · have habs : (-i).toNat = i.natAbs := by omega
    simp [hneg, habs, Int.not_le.2 hneg]
  · have habs : i.toNat = i.natAbs := by omega
    simp [hpos, habs, Int.not_lt.2 hpos]

theorem mem_text_int {i : Int} {c : Char} (h : c ∈ (int i).text.toList) :
    c = '-' ∨ c.isDigit = true := by
  rw [toList_text_int, List.mem_append] at h
  rcases h with hsign | hdigit
  · split at hsign
    · exact .inl (List.mem_singleton.1 hsign)
    · cases hsign
  · exact .inr (Nat.isDigit_of_mem_toDigits (by decide) (by decide) hdigit)

theorem isTextChar_of_mem_text (n : Number) {c : Char} (h : c ∈ n.text.toList) :
    isTextChar c = true := by
  cases n with
  | int i =>
    rcases mem_text_int h with rfl | hdigit
    · rfl
    · exact isTextChar_of_isDigit hdigit
  | double d => exact d.isTextChar_of_mem_render _ c h

theorem text_ne_empty (n : Number) : n.text ≠ "" := by
  intro hempty
  cases n with
  | int i =>
    have hchars := toList_text_int i
    rw [hempty] at hchars
    exact Nat.toDigits_ne_nil (List.append_eq_nil_iff.1 hchars.symm).2
  | double d =>
    have hmem := d.point_or_mark_mem_render layout
    rw [text] at hempty
    rw [hempty] at hmem
    simp at hmem

/-! ## Telling numbers apart -/

/-- Numbers of a kind are told apart by their texts. -/
def ToldApart (P : Number → Prop) : Prop :=
  ∀ m n : Number, P m → P n → m.text = n.text → m = n

/-- Integers, and doubles as they are built. -/
def Canonical : Number → Prop
  | int _ => True
  | double d => d.Canonical

/-- Integers are told apart by their signs and digits. -/
theorem text_int_inj {i j : Int} (h : (int i).text = (int j).text) : i = j := by
  have hread : ∀ i : Int, Double.readSigned (int i).text.toList =
      (decide (i < 0), (i.natAbs : ℚ)) := by
    intro i
    have hdigits : ∀ c ∈ Nat.toDigits 10 i.natAbs, c.isDigit = true :=
      fun c hc => Nat.isDigit_of_mem_toDigits (by decide) (by decide) hc
    obtain ⟨c, rest, hcons⟩ :=
      List.exists_cons_of_ne_nil (Nat.toDigits_ne_nil (n := i.natAbs) (b := 10))
    have hvalue := Double.readValue_whole hdigits Double.endsDigits_nil (by simp)
    rw [List.append_nil, ofDigits_toDigits] at hvalue
    rw [toList_text_int, Double.readSigned_append _ hcons (hdigits c (hcons ▸ List.mem_cons_self)),
      hvalue]
    simp [Double.readExponent?]
  have hsame := (hread i).symm.trans ((congrArg Double.readSigned (congrArg String.toList h)).trans
    (hread j))
  obtain ⟨hsign, hvalue⟩ := Prod.mk.inj hsame
  have habs : i.natAbs = j.natAbs := Nat.cast_injective hvalue
  rw [decide_eq_decide] at hsign
  omega

/-- Integers are not written like doubles. -/
theorem text_int_ne (i : Int) (d : Double) : (int i).text ≠ (double d).text := by
  intro h
  have hmem := d.point_or_mark_mem_render layout
  rw [← text, ← h] at hmem
  rcases hmem with hpoint | hmark
  · exact absurd (mem_text_int hpoint) (by decide)
  · exact absurd (mem_text_int hmark) (by decide)

/-- Integers and canonical doubles are told apart by their texts. -/
theorem toldApart_canonical : ToldApart Canonical := by
  intro m n hm hn h
  cases m with
  | int i =>
    cases n with
    | int j => exact congrArg int (text_int_inj h)
    | double d => exact absurd h (text_int_ne i d)
  | double d =>
    cases n with
    | int j => exact absurd h.symm (text_int_ne j d)
    | double d' => exact congrArg double (Double.render_inj layout hm hn h)

end Number

end ViewSchema
