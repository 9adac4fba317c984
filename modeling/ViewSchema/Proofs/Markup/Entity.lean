import ViewSchema.Markup.Entity

/-!
# Decoding undoes escaping

Entities are decoded one kind after the other.  Between two rounds the text is escaped in
fewer characters than before, so each round is the same step: the entities of one character
are replaced and all other entities are passed over.

Main results:

- Theorem `Entity.replaceAll_flatMap`: replacing in a text that is written character by
  character.
- Theorem `Entity.decodeChars_escapeExcept`: decoding undoes escaping of any set of
  characters that holds the ampersand.
- Theorems `Entity.decodeChars_escapeText` and `Entity.decodeChars_escapeAttribute`: the two
  kinds of escaping in use.
- Theorem `Entity.not_mem_escapeAttributeChar`: what has a meaning in markup is escaped.
-/

namespace ViewSchema

namespace Entity

variable {pattern replacement rest : List Char}

/-! ## Replacing -/

/-- Characters of an occurrence that has been replaced are passed over. -/
theorem replaceFrom_length (xs : List Char) :
    replaceFrom pattern replacement xs.length (xs ++ rest) =
      replaceFrom pattern replacement 0 rest := by
  induction xs with
  | nil => rfl
  | cons x xs ih => simpa [replaceFrom] using ih

/-- An occurrence at the front is replaced. -/
theorem replaceFrom_pattern (c : Char) (body : List Char) :
    replaceFrom (c :: body) replacement 0 (c :: body ++ rest) =
      replacement ++ replaceFrom (c :: body) replacement 0 rest := by
  have hprefix : (c :: body).isPrefixOf (c :: (body ++ rest)) = true := by
    rw [List.isPrefixOf_iff_prefix]
    exact List.prefix_append (c :: body) rest
  have htail : replaceFrom (c :: body) replacement body.length (body ++ rest) =
      replaceFrom (c :: body) replacement 0 rest := replaceFrom_length body
  rw [List.cons_append, replaceFrom, if_pos hprefix]
  simpa using htail

/-- A character that no occurrence starts with is kept. -/
theorem replaceFrom_cons_of_ne {c d : Char} (h : c ≠ d) (body : List Char) :
    replaceFrom (d :: body) replacement 0 (c :: rest) =
      c :: replaceFrom (d :: body) replacement 0 rest := by
  have hprefix : ¬ (d :: body).isPrefixOf (c :: rest) = true := by
    simp [List.isPrefixOf, h.symm]
  rw [replaceFrom, if_neg hprefix]

/-- A stretch without the first character of the pattern is kept. -/
theorem replaceFrom_append_of_not_mem {d : Char} {xs : List Char} (h : d ∉ xs)
    (body : List Char) :
    replaceFrom (d :: body) replacement 0 (xs ++ rest) =
      xs ++ replaceFrom (d :: body) replacement 0 rest := by
  induction xs with
  | nil => rfl
  | cons x xs ih =>
    have hx : x ≠ d := fun heq => h (heq ▸ List.mem_cons_self)
    have hxs : d ∉ xs := fun hin => h (List.mem_cons_of_mem _ hin)
    rw [List.cons_append, replaceFrom_cons_of_ne hx, ih hxs, List.cons_append]

/-- A stretch that starts like the pattern and goes on differently is kept. -/
theorem replaceFrom_append_of_ne {a d e : Char} {xs : List Char} (hne : e ≠ d)
    (ha : a ∉ e :: xs) (body : List Char) :
    replaceFrom (a :: d :: body) replacement 0 (a :: e :: xs ++ rest) =
      a :: e :: xs ++ replaceFrom (a :: d :: body) replacement 0 rest := by
  have hprefix : ¬ (a :: d :: body).isPrefixOf (a :: (e :: xs ++ rest)) = true := by
    simp [List.isPrefixOf, hne.symm]
  have htail : replaceFrom (a :: d :: body) replacement 0 (e :: xs ++ rest) =
      e :: xs ++ replaceFrom (a :: d :: body) replacement 0 rest :=
    replaceFrom_append_of_not_mem ha (d :: body)
  rw [List.cons_append, replaceFrom, if_neg hprefix, htail]
  rfl

/-- In a text that is written character by character, replacing acts on each character. -/
theorem replaceAll_flatMap {before after : Char → List Char}
    (h : ∀ c rest, replaceFrom pattern replacement 0 (before c ++ rest) =
      after c ++ replaceFrom pattern replacement 0 rest) (cs : List Char) :
    replaceAll pattern replacement (cs.flatMap before) = cs.flatMap after := by
  unfold replaceAll
  induction cs with
  | nil => rfl
  | cons c cs ih => rw [List.flatMap_cons, List.flatMap_cons, h, ih]

/-! ## Rounds of decoding -/

/-- A character as markup, in a text where some characters stand for themselves. -/
def escapeExcept (plain : Char → Bool) (c : Char) : List Char :=
  if plain c then [c] else escapeAttributeChar c

/-- What escaping makes of a character: an entity of one of four kinds, or itself. -/
theorem escapeAttributeChar_cases (c : Char) :
    (c = '&' ∧ escapeAttributeChar c = ['&', 'a', 'm', 'p', ';']) ∨
    (c = '<' ∧ escapeAttributeChar c = ['&', 'l', 't', ';']) ∨
    (c = '>' ∧ escapeAttributeChar c = ['&', 'g', 't', ';']) ∨
    (c = '"' ∧ escapeAttributeChar c = ['&', 'q', 'u', 'o', 't', ';']) ∨
    (c ≠ '&' ∧ escapeAttributeChar c = [c]) := by
  by_cases hquote : c = '"'
  · subst hquote
    exact .inr (.inr (.inr (.inl ⟨rfl, rfl⟩)))
  by_cases hamp : c = '&'
  · subst hamp
    exact .inl ⟨rfl, rfl⟩
  by_cases hless : c = '<'
  · subst hless
    exact .inr (.inl ⟨rfl, rfl⟩)
  by_cases hgreater : c = '>'
  · subst hgreater
    exact .inr (.inr (.inl ⟨rfl, rfl⟩))
  · refine .inr (.inr (.inr (.inr ⟨hamp, ?_⟩)))
    simp [escapeAttributeChar, escapeTextChar, hquote, hamp, hless, hgreater]

/-- The first letter of an entity tells which character it stands for. -/
theorem escapeAttributeChar_entity {c x d : Char} {body body' : List Char}
    (hc : escapeAttributeChar c = '&' :: d :: body)
    (hx : escapeAttributeChar x = '&' :: d :: body') : c = x := by
  rcases escapeAttributeChar_cases c with ⟨ec, h⟩ | ⟨ec, h⟩ | ⟨ec, h⟩ | ⟨ec, h⟩ | ⟨-, h⟩ <;>
  rcases escapeAttributeChar_cases x with ⟨ex, h'⟩ | ⟨ex, h'⟩ | ⟨ex, h'⟩ | ⟨ex, h'⟩ | ⟨-, h'⟩ <;>
  simp_all

/-- Escaping writes four entities only. -/
theorem escapeAttributeChar_ne {d : Char} (hd : d ∉ ['a', 'l', 'g', 'q']) (c : Char)
    (xs : List Char) : escapeAttributeChar c ≠ '&' :: d :: xs := by
  intro heq
  rcases escapeAttributeChar_cases c with ⟨-, h⟩ | ⟨-, h⟩ | ⟨-, h⟩ | ⟨-, h⟩ | ⟨-, h⟩ <;>
    · rw [heq] at h
      simp_all

/-- A round for another entity than the one of a character keeps it. -/
theorem replaceFrom_escapeExcept {plain : Char → Bool} (hamp : plain '&' = false) {c d : Char}
    (h : ∀ xs, escapeAttributeChar c ≠ '&' :: d :: xs) (body : List Char) :
    replaceFrom ('&' :: d :: body) replacement 0 (escapeExcept plain c ++ rest) =
      escapeExcept plain c ++ replaceFrom ('&' :: d :: body) replacement 0 rest := by
  unfold escapeExcept
  split
  · rename_i hplain
    have hc : c ≠ '&' := fun heq => by simp [heq, hamp] at hplain
    exact replaceFrom_append_of_not_mem (by simpa using hc.symm) _
  · rcases escapeAttributeChar_cases c with ⟨-, hc⟩ | ⟨-, hc⟩ | ⟨-, hc⟩ | ⟨-, hc⟩ | ⟨hne, hc⟩ <;>
      rw [hc] at h ⊢
    · exact replaceFrom_append_of_ne (fun heq => h _ (by rw [heq])) (by decide) _
    · exact replaceFrom_append_of_ne (fun heq => h _ (by rw [heq])) (by decide) _
    · exact replaceFrom_append_of_ne (fun heq => h _ (by rw [heq])) (by decide) _
    · exact replaceFrom_append_of_ne (fun heq => h _ (by rw [heq])) (by decide) _
    · exact replaceFrom_append_of_not_mem (by simpa using hne.symm) _

/-- A round for an entity that escaping does not write changes nothing. -/
theorem replaceAll_foreign (plain : Char → Bool) (hamp : plain '&' = false) {d : Char}
    (hd : ∀ c xs, escapeAttributeChar c ≠ '&' :: d :: xs) (body replacement cs : List Char) :
    replaceAll ('&' :: d :: body) replacement (cs.flatMap (escapeExcept plain)) =
      cs.flatMap (escapeExcept plain) :=
  replaceAll_flatMap (fun c _ => replaceFrom_escapeExcept hamp (hd c) body) cs

/-- A round for an entity that escaping writes decodes one more character. -/
theorem replaceAll_own (plain : Char → Bool) (hamp : plain '&' = false) {x d : Char}
    (body : List Char) (hx : escapeAttributeChar x = '&' :: d :: body) (cs : List Char) :
    replaceAll ('&' :: d :: body) [x] (cs.flatMap (escapeExcept plain)) =
      cs.flatMap (escapeExcept fun c => plain c || c == x) := by
  refine replaceAll_flatMap ?_ cs
  intro c rest
  by_cases hcx : c = x
  · subst hcx
    have hafter : escapeExcept (fun c' => plain c' || c' == c) c = [c] := by
      simp [escapeExcept]
    rw [hafter]
    by_cases hplain : plain c
    · have hne : c ≠ '&' := fun heq => by simp [heq, hamp] at hplain
      have hbefore : escapeExcept plain c = [c] := if_pos hplain
      rw [hbefore]
      exact replaceFrom_append_of_not_mem (by simpa using hne.symm) _
    · have hbefore : escapeExcept plain c = '&' :: d :: body := (if_neg hplain).trans hx
      rw [hbefore]
      exact replaceFrom_pattern '&' (d :: body)
  · have hafter : escapeExcept (fun c' => plain c' || c' == x) c = escapeExcept plain c := by
      simp [escapeExcept, hcx]
    rw [hafter]
    exact replaceFrom_escapeExcept hamp
      (fun xs hc => hcx (escapeAttributeChar_entity hc hx)) body

/-- Decoding undoes escaping of any characters that the ampersand is one of. -/
theorem decodeChars_escapeExcept (plain : Char → Bool) (hamp : plain '&' = false)
    (cs : List Char) : decodeChars (cs.flatMap (escapeExcept plain)) = cs := by
  have hless := replaceAll_own plain hamp (x := '<') (d := 'l') ['t', ';'] rfl cs
  have hgreater := replaceAll_own (fun c => plain c || c == '<') (by simp [hamp])
    (x := '>') (d := 'g') ['t', ';'] rfl cs
  have hquote := replaceAll_own (fun c => plain c || c == '<' || c == '>') (by simp [hamp])
    (x := '"') (d := 'q') ['u', 'o', 't', ';'] rfl cs
  have happly := fun replacement => replaceAll_foreign
    (fun c => plain c || c == '<' || c == '>' || c == '"') (by simp [hamp])
    (escapeAttributeChar_ne (d := '#') (by decide)) ['3', '9', ';'] replacement cs
  have hblank := fun replacement => replaceAll_foreign
    (fun c => plain c || c == '<' || c == '>' || c == '"') (by simp [hamp])
    (escapeAttributeChar_ne (d := 'n') (by decide)) ['b', 's', 'p', ';'] replacement cs
  have hlast := replaceAll_own
    (fun c => plain c || c == '<' || c == '>' || c == '"') (by simp [hamp])
    (x := '&') (d := 'a') ['m', 'p', ';'] rfl cs
  have hall : (escapeExcept fun c =>
      plain c || c == '<' || c == '>' || c == '"' || c == '&') = fun c => [c] := by
    funext c
    unfold escapeExcept
    split
    · rfl
    · rcases escapeAttributeChar_cases c with h | h | h | h | h <;> simp_all
  change replaceAll ['&', 'a', 'm', 'p', ';'] ['&']
    (replaceAll ['&', 'n', 'b', 's', 'p', ';'] _ (replaceAll ['&', '#', '3', '9', ';'] _
      (replaceAll ['&', 'q', 'u', 'o', 't', ';'] ['"'] (replaceAll ['&', 'g', 't', ';'] ['>']
        (replaceAll ['&', 'l', 't', ';'] ['<'] _))))) = cs
  rw [hless, hgreater, hquote, happly, hblank, hlast, hall]
  exact List.flatMap_singleton' cs

/-- In a text quotes stand for themselves. -/
theorem escapeTextChar_eq : escapeTextChar = escapeExcept (· == '"') := by
  funext c
  by_cases hquote : c = '"'
  · subst hquote
    rfl
  · simp [escapeExcept, escapeAttributeChar, hquote]

/-- Decoding undoes the escaping of text. -/
theorem decodeChars_escapeText (cs : List Char) :
    decodeChars (cs.flatMap escapeTextChar) = cs := by
  rw [escapeTextChar_eq]
  exact decodeChars_escapeExcept (· == '"') (by decide) cs

/-- Decoding undoes the escaping of attribute values. -/
theorem decodeChars_escapeAttribute (cs : List Char) :
    decodeChars (cs.flatMap escapeAttributeChar) = cs :=
  decodeChars_escapeExcept (fun _ => false) rfl cs

/-! ## Characters that escaping removes -/

/-- A text without any of the four characters is its own escaped form. -/
theorem flatMap_escapeAttributeChar_of_plain {cs : List Char}
    (h : ∀ c ∈ cs, c ∉ ['&', '<', '>', '"']) : cs.flatMap escapeAttributeChar = cs := by
  induction cs with
  | nil => rfl
  | cons c rest ih =>
    have hrest := ih fun d hd => h d (List.mem_cons_of_mem _ hd)
    have hc : escapeAttributeChar c = [c] := by
      have hplain := h c List.mem_cons_self
      rcases escapeAttributeChar_cases c with ⟨hc, -⟩ | ⟨hc, -⟩ | ⟨hc, -⟩ | ⟨hc, -⟩ | ⟨-, hc⟩
      · exact absurd hplain (by simp [hc])
      · exact absurd hplain (by simp [hc])
      · exact absurd hplain (by simp [hc])
      · exact absurd hplain (by simp [hc])
      · exact hc
    rw [List.flatMap_cons, hc, hrest]
    rfl

/-- Neither an opening bracket nor a quote is left in an escaped character. -/
theorem not_mem_escapeAttributeChar {c : Char} (hc : c ∈ ['<', '"']) (x : Char) :
    c ∉ escapeAttributeChar x := by
  have hspecial : c = '<' ∨ c = '"' := by simpa using hc
  by_cases hx : c = x
  · subst hx
    rcases hspecial with rfl | rfl <;> decide
  · have hletters : c ∉ ['&', 'a', 'm', 'p', 'l', 'g', 't', 'q', 'u', 'o', ';'] := by
      rcases hspecial with rfl | rfl <;> decide
    rcases escapeAttributeChar_cases x with ⟨-, h⟩ | ⟨-, h⟩ | ⟨-, h⟩ | ⟨-, h⟩ | ⟨-, h⟩ <;>
      rw [h] <;> simp_all

/-- No quote is left in an escaped value. -/
theorem ne_quote_of_mem_escapeAttribute {cs : List Char} {c : Char}
    (hc : c ∈ cs.flatMap escapeAttributeChar) : (c != '"') = true := by
  obtain ⟨x, -, hx⟩ := List.mem_flatMap.1 hc
  have hne : c ≠ '"' := by
    rintro rfl
    exact not_mem_escapeAttributeChar (by decide) x hx
  simpa using hne

/-- No opening bracket is left in an escaped text. -/
theorem bracket_not_mem_escapeText (cs : List Char) : '<' ∉ cs.flatMap escapeTextChar := by
  intro hc
  obtain ⟨x, -, hx⟩ := List.mem_flatMap.1 hc
  rw [escapeTextChar_eq, escapeExcept] at hx
  split at hx
  · simp_all
  · exact not_mem_escapeAttributeChar (by decide) x hx

end Entity

end ViewSchema
