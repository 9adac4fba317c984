import ViewSchema.Proofs.Text.Segments
import ViewSchema.Url.Escape

/-!
# Reading forms

A form is read as pairs of texts: its fields stand between ampersands, and the first equals sign
of a field ends the name.  On either side a plus sign is a space, and an escape is a byte of the
text's UTF-8 form.  What is written as a form is read again, and fields that are written behind
others are read behind them.

Main results:

- Definition `UrlForm.decode`: the pairs of a form.
- Theorem `UrlForm.decodeText_formField`: a text that is written is read again.
- Theorem `UrlForm.decode_intercalate`: fields that are written behind others are read behind them.
-/

namespace ViewSchema

/-! ## UTF-8 -/

namespace Utf8

/-- The bytes that may come after the first byte of a character: how many they are, and the bounds
of the first of them.  Further ones are from `0x80` to `0xBF`. -/
def following (first : UInt8) : Nat × UInt8 × UInt8 :=
  if 0xC2 ≤ first ∧ first ≤ 0xDF then (1, 0x80, 0xBF)
  else if first = 0xE0 then (2, 0xA0, 0xBF)
  else if first = 0xED then (2, 0x80, 0x9F)
  else if 0xE1 ≤ first ∧ first ≤ 0xEF then (2, 0x80, 0xBF)
  else if first = 0xF0 then (3, 0x90, 0xBF)
  else if 0xF1 ≤ first ∧ first ≤ 0xF3 then (3, 0x80, 0xBF)
  else if first = 0xF4 then (3, 0x80, 0x8F)
  else (0, 0x80, 0xBF)

/-- How many bytes after a first one belong to a character that is broken off behind them. -/
def brokenTail (first : UInt8) : List UInt8 → Nat
  | [] => 0
  | second :: rest =>
    let (count, low, high) := following first
    if 0 < count ∧ low ≤ second ∧ second ≤ high then
      1 + ((rest.take (count - 2)).takeWhile fun byte => 0x80 ≤ byte ∧ byte ≤ 0xBF).length
    else 0

/-- The characters of bytes, after some bytes of a character that is read already.  A character
that is broken off is read as the one that replaces it. -/
def decodeAfter : Nat → List UInt8 → List Char
  | _, [] => []
  | skipped + 1, _ :: rest => decodeAfter skipped rest
  | 0, first :: rest =>
    match (first :: rest).toByteArray.utf8DecodeChar? 0 with
    | some c => c :: decodeAfter (c.utf8Size - 1) rest
    | none => '\uFFFD' :: decodeAfter (brokenTail first rest) rest

/-- The characters of bytes. -/
def decode (bytes : List UInt8) : List Char := decodeAfter 0 bytes

theorem decodeAfter_append (taken rest : List UInt8) :
    decodeAfter taken.length (taken ++ rest) = decode rest := by
  induction taken with
  | nil => rfl
  | cons first others ih => exact ih

/-- The form of a character is read as the character. -/
theorem decode_utf8EncodeChar (c : Char) (rest : List UInt8) :
    decode (String.utf8EncodeChar c ++ rest) = c :: decode rest := by
  have hfront : (String.utf8EncodeChar c ++ rest).toByteArray.utf8DecodeChar? 0 = some c := by
    rw [List.toByteArray_append]
    exact ByteArray.utf8DecodeChar?_utf8EncodeChar_append
  have hlength := String.length_utf8EncodeChar c
  cases hform : String.utf8EncodeChar c with
  | nil =>
    rw [hform] at hlength
    exact absurd hlength (Nat.ne_of_lt c.utf8Size_pos)
  | cons first others =>
    rw [hform] at hfront hlength
    rw [List.cons_append] at hfront ⊢
    have hothers : c.utf8Size - 1 = others.length := by rw [← hlength, List.length_cons]; rfl
    rw [decode, decodeAfter, hfront]
    simp only [hothers, decodeAfter_append]

/-- The forms of characters are read as the characters. -/
theorem decode_flatMap_utf8EncodeChar (cs : List Char) :
    decode (cs.flatMap String.utf8EncodeChar) = cs := by
  induction cs with
  | nil => rfl
  | cons c rest ih => rw [List.flatMap_cons, decode_utf8EncodeChar, ih]

end Utf8

namespace UrlEscape

/-! ## Escapes -/

theorem hexDigit?_hexDigit {n : Nat} (h : n < 16) : hexDigit? (hexDigit n) = some n := by
  revert n
  decide

theorem isFormPlain_hexDigit {n : Nat} (h : n < 16) : isFormPlain (hexDigit n) := by
  revert n
  decide

theorem hexDigits_lt (byte : UInt8) : byte.toNat / 16 < 16 ∧ byte.toNat % 16 < 16 := by
  have hbyte := byte.toNat_lt
  omega

/-- An escape is read as its byte. -/
theorem unescape_ofByte (byte : UInt8) (rest : List Char) :
    unescape (ofByte byte ++ rest) = byte :: unescape rest := by
  obtain ⟨hhigh, hlow⟩ := hexDigits_lt byte
  have hbyte : UInt8.ofNat (16 * (byte.toNat / 16) + byte.toNat % 16) = byte := by
    rw [Nat.div_add_mod]
    exact UInt8.ofNat_toNat
  show unescape ('%' :: hexDigit _ :: hexDigit _ :: rest) = _
  simp only [unescape, hexDigit?_hexDigit hhigh, hexDigit?_hexDigit hlow, hbyte]

/-- Escapes are read as their bytes. -/
theorem unescape_flatMap_ofByte (bytes : List UInt8) (rest : List Char) :
    unescape (bytes.flatMap ofByte ++ rest) = bytes ++ unescape rest := by
  induction bytes with
  | nil => rfl
  | cons byte others ih =>
    rw [List.flatMap_cons, List.append_assoc, unescape_ofByte, ih]
    rfl

/-- Any character but a percent sign stands for its own form. -/
theorem unescape_cons {c : Char} (h : c ≠ '%') (rest : List Char) :
    unescape (c :: rest) = String.utf8EncodeChar c ++ unescape rest := by
  rw [unescape]
  exact fun high low others hpercent => absurd hpercent h

/-- An escape has no character but the percent sign that is not plain. -/
theorem of_mem_ofChar {c other : Char} (h : other ∈ ofChar c) :
    isFormPlain other ∨ other = '%' := by
  obtain ⟨byte, -, hbyte⟩ := List.mem_flatMap.1 h
  obtain ⟨hhigh, hlow⟩ := hexDigits_lt byte
  simp only [ofByte, List.mem_cons, List.not_mem_nil, or_false] at hbyte
  rcases hbyte with rfl | rfl | rfl
  · exact .inr rfl
  · exact .inl (isFormPlain_hexDigit hhigh)
  · exact .inl (isFormPlain_hexDigit hlow)

end UrlEscape

/-! ## Forms -/

namespace UrlForm

open UrlEscape

/-- A plus sign is a space. -/
def spaced (c : Char) : Char := if c = '+' then ' ' else c

/-- The text of one side of a field.  Plus signs are read first, since one that is meant as such is
escaped. -/
def decodeText (side : List Char) : String :=
  String.ofList (Utf8.decode (unescape (side.map spaced)))

/-- The name and the value of a field. -/
def decodeField (field : List Char) : String × String :=
  (decodeText (field.takeWhile (· != '=')), decodeText ((field.dropWhile (· != '=')).drop 1))

/-- The pairs of a form. -/
def decode (form : String) : List (String × String) :=
  (nonemptyPieces (· == '&') form.toList).map decodeField

/-- A character as it is written in a form. -/
def written (c : Char) : List Char :=
  if c = ' ' then ['+'] else if isFormPlain c then [c] else ofChar c

theorem toList_formField (text : String) :
    (formField text).toList = text.toList.flatMap written := by
  rw [formField, String.toList_ofList]
  rfl

/-- Only plus and percent signs are written that are not plain. -/
theorem of_mem_written {c other : Char} (h : other ∈ written c) :
    isFormPlain other ∨ other = '%' ∨ other = '+' := by
  unfold written at h
  split at h
  · exact .inr (.inr (List.mem_singleton.1 h))
  · split at h
    · rename_i hplain
      rw [List.mem_singleton.1 h]
      exact .inl hplain
    · exact (of_mem_ofChar h).imp_right .inl

theorem spaced_of_plain {c : Char} (h : isFormPlain c ∨ c = '%') : spaced c = c := by
  apply if_neg
  rintro rfl
  revert h
  decide

/-- A character that is written is read as its form. -/
theorem unescape_written (c : Char) (rest : List Char) :
    unescape ((written c).map spaced ++ rest) = String.utf8EncodeChar c ++ unescape rest := by
  unfold written
  split
  · rename_i hspace
    rw [hspace]
    exact unescape_cons (by decide) rest
  · split
    · rename_i hplain
      have hpercent : c ≠ '%' := by rintro rfl; revert hplain; decide
      rw [List.map_singleton, spaced_of_plain (.inl hplain)]
      exact unescape_cons hpercent rest
    · have hspaced : (ofChar c).map spaced = ofChar c :=
        List.map_congr_left (fun other hother => spaced_of_plain (of_mem_ofChar hother)) |>.trans
          (List.map_id _)
      rw [hspaced]
      exact unescape_flatMap_ofByte _ rest

/-- A text that is written is read again. -/
theorem decodeText_formField (text : String) : decodeText (formField text).toList = text := by
  have hbytes : ∀ cs : List Char,
      unescape ((cs.flatMap written).map spaced) = cs.flatMap String.utf8EncodeChar := by
    intro cs
    induction cs with
    | nil => rfl
    | cons c rest ih => rw [List.flatMap_cons, List.map_append, unescape_written, ih]; rfl
  rw [decodeText, toList_formField, hbytes, Utf8.decode_flatMap_utf8EncodeChar,
    String.ofList_toList]

/-- A text is written without the signs that part fields and their sides. -/
theorem of_mem_formField {text : String} {c : Char} (h : c ∈ (formField text).toList) :
    c ≠ '&' ∧ c ≠ '=' := by
  rw [toList_formField] at h
  obtain ⟨source, -, hwritten⟩ := List.mem_flatMap.1 h
  rcases of_mem_written hwritten with hplain | rfl | rfl
  · constructor <;> rintro rfl <;> revert hplain <;> decide
  · decide
  · decide

theorem toList_formPair (pair : String × String) :
    (formPair pair).toList = (formField pair.1).toList ++ '=' :: (formField pair.2).toList := by
  rw [formPair, String.toList_append, String.toList_append, List.append_assoc]
  rfl

/-- A pair that is written is read again. -/
theorem decodeField_formPair (pair : String × String) :
    decodeField (formPair pair).toList = pair := by
  have hname : ∀ c ∈ (formField pair.1).toList, (c != '=') = true := fun c hc => by
    simpa using (of_mem_formField hc).2
  rw [decodeField, toList_formPair, List.takeWhile_append_of_pos hname,
    List.dropWhile_append_of_pos hname]
  simp [decodeText_formField]

/-- A pair is written as one field. -/
theorem nonemptyPieces_formPair (pair : String × String) :
    nonemptyPieces (· == '&') (formPair pair).toList = [(formPair pair).toList] := by
  rw [toList_formPair]
  apply nonemptyPieces_of_none
  · intro c hc
    rcases List.mem_append.1 hc with hname | hrest
    · simpa using (of_mem_formField hname).1
    · rcases List.mem_cons.1 hrest with rfl | hvalue
      · decide
      · simpa using (of_mem_formField hvalue).1
  · simp

/-- Pairs that are written behind other forms are read behind them. -/
theorem decode_intercalate (forms : List String) (pairs : List (String × String)) :
    decode (String.intercalate "&" (forms ++ pairs.map formPair)) =
      forms.flatMap decode ++ pairs := by
  have hpairs : ((pairs.map formPair).flatMap fun field =>
      nonemptyPieces (· == '&') field.toList).map decodeField = pairs := by
    induction pairs with
    | nil => rfl
    | cons pair rest ih =>
      rw [List.map_cons, List.flatMap_cons, nonemptyPieces_formPair, List.map_append, ih,
        List.map_singleton, decodeField_formPair]
      rfl
  have hseparates : ('&' == '&') = true := rfl
  have hpieces : nonemptyPieces (· == '&')
        (String.intercalate "&" (forms ++ pairs.map formPair)).toList =
      (forms ++ pairs.map formPair).flatMap fun form => nonemptyPieces (· == '&') form.toList := by
    apply nonemptyPieces_intercalate
    · exact hseparates
    · rfl
  rw [decode, hpieces, List.flatMap_append, List.map_append, hpairs, List.map_flatMap]
  rfl

example : decode "a=%FF+b&&c%3D=%E2%82x%4&d=x=y" =
    [("a", "\uFFFD b"), ("c=", "\uFFFDx%4"), ("d", "x=y")] := by
  decide +kernel

end UrlForm

end ViewSchema
