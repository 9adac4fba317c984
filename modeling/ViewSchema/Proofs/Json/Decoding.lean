import ViewSchema.Proofs.Json.RoundTrip
import ViewSchema.Proofs.Number.Text

/-!
# Texts determine values

The compact text of a value says which value it is, up to numbers that are written alike, and
it says so also behind a name and a colon: a name may hold colons, blanks and quotes itself,
but outside of its strings compact text has no blank.

Main results:

- Theorem `Json.text_inj`: values with the same compact text are equal, if this holds for
  their numbers.
- Theorem `Json.named_inj`: a name and a value can be told from their common line.
-/

namespace ViewSchema

namespace Json

open Number (isTextChar)

/-! ## How texts begin and where they stop -/

/-- What may follow a value in compact text: nothing that continues a number. -/
def Stops (rest : List Char) : Prop := ∀ c, rest.head? = some c → isTextChar c = false

/-- The end of a text continues no number. -/
theorem stops_nil : Stops [] := by simp [Stops]

/-- A character that numbers do not have continues none. -/
theorem stops_cons {c : Char} (h : isTextChar c = false) (rest : List Char) :
    Stops (c :: rest) := by
  rintro d ⟨⟩
  exact h

/-- Texts of numbers are told from what follows them. -/
theorem append_inj_of_stops {xs ys r s : List Char} (hxs : ∀ c ∈ xs, isTextChar c = true)
    (hys : ∀ c ∈ ys, isTextChar c = true) (hr : Stops r) (hs : Stops s)
    (h : xs ++ r = ys ++ s) : xs = ys ∧ r = s := by
  have htake : ∀ {xs r : List Char}, (∀ c ∈ xs, isTextChar c = true) → Stops r →
      (xs ++ r).takeWhile isTextChar = xs := by
    intro xs r hxs hr
    rw [List.takeWhile_append_of_pos hxs]
    cases r with
    | nil => simp
    | cons c rest => simp [hr c rfl]
  have hsame : xs = ys := by rw [← htake hxs hr, h, htake hys hs]
  subst hsame
  exact ⟨rfl, List.append_cancel_left h⟩

/-- The kinds of values that their first character tells apart. -/
inductive Kind where
  | null | true | false | number | string | array | object
deriving DecidableEq

def kind : Json → Kind
  | null => .null
  | bool b => if b then .true else .false
  | number _ => .number
  | string _ => .string
  | array _ => .array
  | object _ => .object

/-- The kind of value that a character begins. -/
def kindOf (c : Char) : Kind :=
  if c = 'n' then .null
  else if c = 't' then .true
  else if c = 'f' then .false
  else if c = '"' then .string
  else if c = '[' then .array
  else if c = '\x7b' then .object
  else .number

/-- A text that begins like a number is one. -/
theorem kindOf_of_isTextChar {c : Char} (h : isTextChar c = true) : kindOf c = .number := by
  unfold kindOf
  repeat' split
  all_goals first
    | rfl
    | (rename_i heq
       subst heq
       exact absurd h (by decide))

/-- The first character of a text tells the kind of the value, and is no closing bracket. -/
theorem exists_cons_text (v : Json) :
    ∃ c rest, v.text.toList = c :: rest ∧ kindOf c = v.kind ∧ c ≠ ']' := by
  cases v with
  | null => exact ⟨'n', _, rfl, rfl, by decide⟩
  | bool b => cases b <;> exact ⟨_, _, rfl, rfl, by decide⟩
  | number n =>
    obtain ⟨c, rest, hcons⟩ : ∃ c rest, n.text.toList = c :: rest := by
      cases htext : n.text.toList with
      | nil => exact absurd (String.toList_eq_nil_iff.1 htext) n.text_ne_empty
      | cons c rest => exact ⟨c, rest, rfl⟩
    have hc : isTextChar c = true := n.isTextChar_of_mem_text (hcons ▸ List.mem_cons_self)
    refine ⟨c, rest, by rw [text, hcons], kindOf_of_isTextChar hc, ?_⟩
    rintro rfl
    exact absurd hc (by decide)
  | string s => exact ⟨'"', _, by rw [text, Reader.toList_quoted], rfl, by decide⟩
  | array items =>
    exact ⟨'[', _, by rw [text, String.toList_append, String.toList_append]; rfl, rfl, by decide⟩
  | object fields =>
    exact ⟨'\x7b', _, by rw [text, String.toList_append, String.toList_append]; rfl, rfl,
      by decide⟩

/-- Texts that agree at their beginning are of values of one kind. -/
theorem kind_eq {v w : Json} {r s : List Char} (h : v.text.toList ++ r = w.text.toList ++ s) :
    v.kind = w.kind := by
  obtain ⟨c, rest, hv, hkind, -⟩ := v.exists_cons_text
  obtain ⟨d, rest', hw, hkind', -⟩ := w.exists_cons_text
  rw [hv, hw, List.cons_append, List.cons_append] at h
  rw [← hkind, ← hkind', (List.cons.inj h).1]

/-! ## Lists -/

/-- Entries with commas between them. -/
def joined {α : Type} (write : α → List Char) : List α → List Char
  | [] => []
  | x :: xs => write x ++ xs.flatMap fun y => ',' :: write y

/-- Texts with commas between them, character by character. -/
theorem toList_intercalate {α : Type} (write : α → String) (xs : List α) :
    (String.intercalate "," (xs.map write)).toList = joined (fun x => (write x).toList) xs := by
  induction xs with
  | nil => rfl
  | cons x xs ih =>
    cases xs with
    | nil => simp [joined]
    | cons y ys =>
      rw [List.map_cons, List.map_cons, String.intercalate_cons_cons, String.toList_append,
        ← List.map_cons, ih]
      simp [joined]

variable {α : Type} {write : α → List Char} {close : Char} {r s : List Char}

/-- Two entries can be told apart, and from what follows them. -/
def Separates (write : α → List Char) (x y : α) : Prop :=
  ∀ r s, Stops r → Stops s → write x ++ r = write y ++ s → x = y ∧ r = s

/-- Entries behind a first one, up to a closing bracket, can be told from what follows. -/
theorem tail_inj (hclose : close ≠ ',') (hstop : isTextChar close = false) {xs ys : List α}
    (hxs : ∀ x ∈ xs, ∀ y ∈ ys, Separates write x y)
    (h : (xs.flatMap fun x => ',' :: write x) ++ close :: r =
      (ys.flatMap fun y => ',' :: write y) ++ close :: s) : xs = ys ∧ r = s := by
  have hstops : ∀ (xs : List α) r,
      Stops ((xs.flatMap fun x => ',' :: write x) ++ close :: r) := by
    intro xs r
    cases xs with
    | nil => exact stops_cons hstop r
    | cons x xs => exact stops_cons (by decide) _
  induction xs generalizing ys with
  | nil =>
    cases ys with
    | nil => exact ⟨rfl, (List.cons.inj h).2⟩
    | cons y ys => exact absurd (List.cons.inj h).1 hclose
  | cons x xs ih =>
    cases ys with
    | nil => exact absurd (List.cons.inj h).1.symm hclose
    | cons y ys =>
      simp only [List.flatMap_cons, List.cons_append, List.append_assoc, List.cons.injEq,
        true_and] at h
      obtain ⟨rfl, hrest⟩ := hxs x List.mem_cons_self y List.mem_cons_self _ _ (hstops xs r)
        (hstops ys s) h
      have htail : ∀ x' ∈ xs, ∀ y' ∈ ys, Separates write x' y' := fun x' hx' y' hy' =>
        hxs x' (List.mem_cons_of_mem _ hx') y' (List.mem_cons_of_mem _ hy')
      obtain ⟨rfl, hsame⟩ := ih htail hrest
      exact ⟨rfl, hsame⟩

/-- Entries up to a closing bracket can be told from what follows it. -/
theorem joined_inj (hclose : close ≠ ',') (hstop : isTextChar close = false) {xs ys : List α}
    (hxs : ∀ x ∈ xs, ∀ y ∈ ys, Separates write x y)
    (hopen : ∀ x, ∃ c rest, write x = c :: rest ∧ c ≠ close)
    (h : joined write xs ++ close :: r = joined write ys ++ close :: s) : xs = ys ∧ r = s := by
  cases xs with
  | nil =>
    cases ys with
    | nil => exact ⟨rfl, (List.cons.inj h).2⟩
    | cons y ys =>
      obtain ⟨c, rest, hy, hne⟩ := hopen y
      rw [joined, joined, hy] at h
      exact absurd (List.cons.inj h).1.symm hne
  | cons x xs =>
    cases ys with
    | nil =>
      obtain ⟨c, rest, hx, hne⟩ := hopen x
      rw [joined, joined, hx] at h
      exact absurd (List.cons.inj h).1 hne
    | cons y ys =>
      have hlist : ((x :: xs).flatMap fun x => ',' :: write x) ++ close :: r =
          ((y :: ys).flatMap fun y => ',' :: write y) ++ close :: s := by
        simpa [joined] using h
      exact tail_inj hclose hstop hxs hlist

/-! ## Values -/

/-- Items are written one by one. -/
theorem itemTexts_eq_map (items : List Json) : itemTexts items = items.map text := by
  induction items with
  | nil => rfl
  | cons x xs ih => rw [itemTexts, ih, List.map_cons]

/-- A member of an object as text. -/
def memberText (field : String × Json) : String := quoted field.1 ++ ":" ++ field.2.text

/-- Members are written one by one. -/
theorem fieldTexts_eq_map (fields : List (String × Json)) :
    fieldTexts fields = fields.map memberText := by
  induction fields with
  | nil => rfl
  | cons f fs ih => rw [fieldTexts, ih, List.map_cons, memberText]

/-- The text of an array: its items in brackets. -/
theorem toList_text_array (items : List Json) :
    (array items).text.toList = '[' :: (joined (fun x => x.text.toList) items ++ [']']) := by
  rw [text, itemTexts_eq_map, String.toList_append, String.toList_append, toList_intercalate]
  rfl

/-- The text of an object: its members in braces. -/
theorem toList_text_object (fields : List (String × Json)) :
    (object fields).text.toList =
      '\x7b' :: (joined (fun f => (memberText f).toList) fields ++ ['\x7d']) := by
  rw [text, fieldTexts_eq_map, String.toList_append, String.toList_append, toList_intercalate]
  rfl

/-- A quoted string can be told from what follows it. -/
theorem quoted_append_inj {a b : String} (h : (quoted a).toList ++ r = (quoted b).toList ++ s) :
    a = b ∧ r = s := by
  rw [Reader.toList_quoted, Reader.toList_quoted] at h
  simp only [List.cons_append, List.append_assoc, List.nil_append, List.cons.injEq,
    true_and] at h
  have hread := Reader.stringBody_quoted a r
  rw [h, Reader.stringBody_quoted b s] at hread
  obtain ⟨rfl, rfl⟩ := Prod.mk.inj (Option.some.inj hread)
  exact ⟨rfl, rfl⟩

variable {P : Number → Prop}

/-- Texts of values tell them apart, among values with numbers of a kind. -/
def Distinguished (P : Number → Prop) (v : Json) : Prop :=
  ∀ w : Json, w.AllNumbers P → Separates (fun x : Json => x.text.toList) v w

/-- What holds of the numbers in items holds of those in each of them. -/
theorem allNumbersItems_iff {items : List Json} :
    AllNumbersItems P items ↔ ∀ x ∈ items, x.AllNumbers P := by
  induction items with
  | nil => simp [AllNumbersItems]
  | cons x xs ih => simp [AllNumbersItems, ih]

/-- A value is the only one of its kind, or is known from its text by what is inside. -/
theorem distinguished_of_kind {v : Json} (h : ∀ w : Json, v.kind = w.kind → w.AllNumbers P →
    Separates (fun x : Json => x.text.toList) v w) : v.Distinguished P :=
  fun w hw r s hr hs heq => h w (kind_eq heq) hw r s hr hs heq

/-- Arrays are told apart by their items. -/
theorem distinguished_array {items : List Json} (h : ∀ x ∈ items, x.Distinguished P) :
    (array items).Distinguished P := by
  refine distinguished_of_kind fun w hkind hw r s _ _ heq => ?_
  cases w with
  | array others =>
    simp only [toList_text_array, List.cons_append, List.append_assoc, List.nil_append,
      List.cons.injEq, true_and] at heq
    have hopen : ∀ x : Json, ∃ c rest, x.text.toList = c :: rest ∧ c ≠ ']' := fun x =>
      let ⟨c, rest, hcons, _, hne⟩ := x.exists_cons_text
      ⟨c, rest, hcons, hne⟩
    obtain ⟨rfl, hrest⟩ := joined_inj (by decide) (by decide)
      (fun x hx y hy => h x hx y (allNumbersItems_iff.1 hw y hy)) hopen heq
    exact ⟨rfl, hrest⟩
  | bool b => cases b <;> cases hkind
  | _ => cases hkind

/-- Objects are told apart by their members. -/
theorem distinguished_object {fields : List (String × Json)}
    (h : ∀ f ∈ fields, f.2.Distinguished P) : (object fields).Distinguished P := by
  refine distinguished_of_kind fun w hkind hw r s _ _ heq => ?_
  cases w with
  | object others =>
    simp only [toList_text_object, List.cons_append, List.append_assoc, List.nil_append,
      List.cons.injEq, true_and] at heq
    have hopen : ∀ f : String × Json, ∃ c rest, (memberText f).toList = c :: rest ∧ c ≠ '\x7d' := by
      intro f
      simp only [memberText, String.toList_append, Reader.toList_quoted, List.cons_append]
      exact ⟨_, _, rfl, by decide⟩
    have hmembers : ∀ f ∈ fields, ∀ g ∈ others,
        Separates (fun f => (memberText f).toList) f g := by
      rintro ⟨name, x⟩ hf ⟨name', y⟩ hg r s hr hs heq
      simp only [memberText, String.toList_append, List.append_assoc] at heq
      obtain ⟨rfl, hrest⟩ := quoted_append_inj heq
      have hvalue := List.append_cancel_left hrest
      obtain ⟨rfl, hsame⟩ := h _ hf y (allNumbersFields_iff.1 hw _ hg) r s hr hs hvalue
      exact ⟨rfl, hsame⟩
    obtain ⟨rfl, hrest⟩ := joined_inj (by decide) (by decide) hmembers hopen heq
    exact ⟨rfl, hrest⟩
  | bool b => cases b <;> cases hkind
  | _ => cases hkind

mutual

/-- Values are told apart by their texts when their numbers are. -/
theorem distinguished (hnumbers : Number.ToldApart P) :
    ∀ {v : Json}, v.AllNumbers P → v.Distinguished P
  | .null, _ => by
    refine distinguished_of_kind fun w hkind _ r s _ _ heq => ?_
    cases w with
    | null => exact ⟨rfl, List.append_cancel_left heq⟩
    | bool b => cases b <;> cases hkind
    | _ => cases hkind
  | .bool b, _ => by
    refine distinguished_of_kind fun w hkind _ r s _ _ heq => ?_
    cases w with
    | bool b' =>
      have hsame : b = b' := by cases b <;> cases b' <;> first | rfl | cases hkind
      subst hsame
      exact ⟨rfl, List.append_cancel_left heq⟩
    | _ => cases b <;> cases hkind
  | .number n, hn => by
    refine distinguished_of_kind fun w hkind hw r s hr hs heq => ?_
    cases w with
    | number m =>
      obtain ⟨htext, hrest⟩ :=
        append_inj_of_stops (fun _ => n.isTextChar_of_mem_text)
          (fun _ => m.isTextChar_of_mem_text) hr hs heq
      exact ⟨congrArg number (hnumbers n m hn hw (String.toList_inj.1 htext)), hrest⟩
    | bool b => cases b <;> cases hkind
    | _ => cases hkind
  | .string a, _ => by
    refine distinguished_of_kind fun w hkind _ r s _ _ heq => ?_
    cases w with
    | string b =>
      obtain ⟨rfl, hrest⟩ := quoted_append_inj heq
      exact ⟨rfl, hrest⟩
    | bool b => cases b <;> cases hkind
    | _ => cases hkind
  | .array _, h => distinguished_array (distinguished_items hnumbers h)
  | .object _, h => distinguished_object (distinguished_fields hnumbers h)

/-- Each item of a list is told apart by its text. -/
theorem distinguished_items (hnumbers : Number.ToldApart P) :
    ∀ {items : List Json}, AllNumbersItems P items → ∀ x ∈ items, x.Distinguished P
  | [], _ => by simp
  | _ :: _, h => List.forall_mem_cons.2
    ⟨distinguished hnumbers h.1, distinguished_items hnumbers h.2⟩

/-- Each value of an object is told apart by its text. -/
theorem distinguished_fields (hnumbers : Number.ToldApart P) :
    ∀ {fields : List (String × Json)}, AllNumbersFields P fields →
      ∀ f ∈ fields, f.2.Distinguished P
  | [], _ => by simp
  | (_, _) :: _, h => List.forall_mem_cons.2
    ⟨distinguished hnumbers h.1, distinguished_fields hnumbers h.2⟩

end

/-- Values with the same compact text are equal, when this holds for their numbers. -/
theorem text_inj (hnumbers : Number.ToldApart P) {v w : Json} (hv : v.AllNumbers P)
    (hw : w.AllNumbers P) (h : v.text = w.text) : v = w := by
  have hlists : v.text.toList ++ [] = w.text.toList ++ [] := by rw [h]
  exact (distinguished hnumbers hv w hw [] [] stops_nil stops_nil hlists).1

/-! ## Names in front of values -/

/-- Where a reader stands in compact text: outside of strings, inside of one, behind a
backslash in one, or at a character that compact text does not have outside of strings. -/
inductive Standing where
  | outside | inside | escaped | lost
deriving DecidableEq

namespace Standing

/-- Go past one character. -/
def next (st : Standing) (c : Char) : Standing :=
  match st with
  | outside => if c = '"' then inside else if c = ' ' ∨ c = '\\' then lost else outside
  | inside => if c = '"' then outside else if c = '\\' then escaped else inside
  | escaped => inside
  | lost => lost

/-- Go past several characters. -/
def after (st : Standing) (cs : List Char) : Standing := cs.foldl next st

/-- A reader can go past a text in two goes. -/
theorem after_append (st : Standing) (xs ys : List Char) :
    st.after (xs ++ ys) = (st.after xs).after ys := List.foldl_append

/-- A reader goes past a text character by character. -/
theorem after_cons (st : Standing) (c : Char) (cs : List Char) :
    st.after (c :: cs) = (st.next c).after cs := rfl

/-- A reader that is lost stays lost. -/
theorem after_lost (cs : List Char) : lost.after cs = lost := by
  induction cs with
  | nil => rfl
  | cons c cs ih => exact ih

end Standing

open Standing

/-- Text that leaves a reader outside of strings outside, and one inside of a string inside,
unless it gets lost. -/
structure Balanced (cs : List Char) : Prop where
  outside : outside.after cs = outside
  inside : inside.after cs = inside ∨ inside.after cs = lost

namespace Balanced

variable {xs ys : List Char}

/-- No text at all leaves a reader where it stands. -/
theorem nil : Balanced [] := ⟨rfl, .inl rfl⟩

/-- Texts that leave a reader outside of strings can be joined. -/
theorem append (hxs : Balanced xs) (hys : Balanced ys) : Balanced (xs ++ ys) := by
  constructor
  · rw [after_append, hxs.outside, hys.outside]
  · rw [after_append]
    rcases hxs.inside with hinside | hlost
    · rw [hinside]
      exact hys.inside
    · rw [hlost, after_lost]
      exact .inr rfl

/-- Characters other than quotes, blanks and backslashes change nothing. -/
theorem cons {c : Char} (hc : c ≠ '"' ∧ c ≠ ' ' ∧ c ≠ '\\') (hxs : Balanced xs) :
    Balanced (c :: xs) := by
  obtain ⟨hquote, hblank, hslash⟩ := hc
  have hout : Standing.outside.next c = .outside := by simp [next, hquote, hblank, hslash]
  have hin : Standing.inside.next c = .inside := by simp [next, hquote, hslash]
  constructor
  · rw [after_cons, hout, hxs.outside]
  · rw [after_cons, hin]
    exact hxs.inside

/-- Characters that neither quote nor escape leave a reader outside of strings. -/
theorem ofPlain (h : ∀ c ∈ xs, c ≠ '"' ∧ c ≠ ' ' ∧ c ≠ '\\') : Balanced xs := by
  induction xs with
  | nil => exact nil
  | cons c cs ih =>
    exact cons (h c List.mem_cons_self) (ih fun d hd => h d (List.mem_cons_of_mem _ hd))

/-- Entries with commas between them are balanced when they are. -/
theorem joined {α : Type} {write : α → List Char} {xs : List α}
    (h : ∀ x ∈ xs, Balanced (write x)) : Balanced (joined write xs) := by
  cases xs with
  | nil => exact nil
  | cons x xs =>
    refine (h x List.mem_cons_self).append ?_
    have htail : ∀ y ∈ xs, Balanced (write y) := fun y hy => h y (List.mem_cons_of_mem _ hy)
    clear h
    induction xs with
    | nil => exact nil
    | cons y ys ih =>
      have hfirst := htail y List.mem_cons_self
      have hrest := ih fun z hz => htail z (List.mem_cons_of_mem _ hz)
      rw [List.flatMap_cons, List.cons_append]
      exact cons (by decide) (hfirst.append hrest)

end Balanced

/-- A written character stands as it is, or behind a backslash. -/
theorem escapeChar_cases (c : Char) :
    (escapeChar c = [c] ∧ c ≠ '"' ∧ c ≠ '\\') ∨
      ∃ d rest, escapeChar c = '\\' :: d :: rest ∧ ∀ x ∈ rest, x ≠ '"' ∧ x ≠ '\\' := by
  have hall : ∀ n < 0x20, (hexDigits 4 n).all (fun x => x != '"' && x != '\\') = true := by
    decide
  have hhex : ∀ n < 0x20, ∀ x ∈ hexDigits 4 n, x ≠ '"' ∧ x ≠ '\\' := by
    intro n hn x hx
    simpa using List.all_eq_true.1 (hall n hn) x hx
  unfold escapeChar
  by_cases hquote : c = '"'
  · exact .inr ⟨'"', [], by simp [hquote]⟩
  by_cases hslash : c = '\\'
  · exact .inr ⟨'\\', [], by simp [hslash]⟩
  rw [if_neg hquote, if_neg hslash]
  split
  · exact .inr ⟨'n', [], rfl, by simp⟩
  split
  · exact .inr ⟨'r', [], rfl, by simp⟩
  split
  · exact .inr ⟨'t', [], rfl, by simp⟩
  split
  · exact .inr ⟨'b', [], rfl, by simp⟩
  split
  · exact .inr ⟨'f', [], rfl, by simp⟩
  split
  · rename_i hcontrol
    exact .inr ⟨'u', hexDigits 4 c.toNat, rfl, hhex _ hcontrol⟩
  · exact .inl ⟨rfl, hquote, hslash⟩

/-- Inside of a string, a written character is passed. -/
theorem inside_after_escapeChar (c : Char) : inside.after (escapeChar c) = inside := by
  rcases escapeChar_cases c with ⟨hplain, hquote, hslash⟩ | ⟨d, rest, hescaped, hrest⟩
  · simp [hplain, next, hquote, hslash, after]
  · have hdigits : ∀ rest : List Char, (∀ x ∈ rest, x ≠ '"' ∧ x ≠ '\\') →
        inside.after rest = inside := by
      intro rest hrest
      induction rest with
      | nil => rfl
      | cons x xs ih =>
        obtain ⟨hquote, hslash⟩ := hrest x List.mem_cons_self
        rw [after_cons, next, if_neg hquote, if_neg hslash]
        exact ih fun y hy => hrest y (List.mem_cons_of_mem _ hy)
    rw [hescaped]
    exact hdigits rest hrest

/-- Outside of strings, a written character is passed or the reader gets lost. -/
theorem outside_after_escapeChar (c : Char) :
    outside.after (escapeChar c) = outside ∨ outside.after (escapeChar c) = lost := by
  rcases escapeChar_cases c with ⟨hplain, hquote, hslash⟩ | ⟨d, rest, hescaped, -⟩
  · by_cases hblank : c = ' '
    · exact .inr (by rw [hplain, hblank]; rfl)
    · exact .inl (by simp [hplain, next, hquote, hslash, hblank, after])
  · rw [hescaped]
    exact .inr (after_lost (d :: rest))

/-- A quoted string is balanced: its quotes are the only ones that count. -/
theorem balanced_quoted (s : String) : Balanced (quoted s).toList := by
  have hinside : ∀ chars : List Char, inside.after (chars.flatMap escapeChar) = inside := by
    intro chars
    induction chars with
    | nil => rfl
    | cons c chars ih => rw [List.flatMap_cons, after_append, inside_after_escapeChar, ih]
  have houtside : ∀ chars : List Char, outside.after (chars.flatMap escapeChar) = outside ∨
      outside.after (chars.flatMap escapeChar) = lost := by
    intro chars
    induction chars with
    | nil => exact .inl rfl
    | cons c chars ih =>
      rw [List.flatMap_cons, after_append]
      rcases outside_after_escapeChar c with hpassed | hlost
      · rw [hpassed]
        exact ih
      · rw [hlost, after_lost]
        exact .inr rfl
  rw [Reader.toList_quoted]
  constructor
  · show (inside.after (s.toList.flatMap escapeChar ++ ['"'])) = outside
    rw [after_append, hinside]
    rfl
  · show (outside.after (s.toList.flatMap escapeChar ++ ['"'])) = inside ∨
      (outside.after (s.toList.flatMap escapeChar ++ ['"'])) = lost
    rw [after_append]
    rcases houtside s.toList with hpassed | hlost
    · rw [hpassed]
      exact .inl rfl
    · rw [hlost]
      exact .inr rfl

mutual

/-- Compact text is balanced. -/
theorem balanced_text : ∀ v : Json, Balanced v.text.toList
  | .null => .ofPlain (by simp [text])
  | .bool b => .ofPlain (by cases b <;> simp [text])
  | .number n => by
    refine .ofPlain fun c hc => ?_
    have hchar : isTextChar c = true := n.isTextChar_of_mem_text hc
    refine ⟨?_, ?_, ?_⟩ <;> (rintro rfl; exact absurd hchar (by decide))
  | .string s => balanced_quoted s
  | .array items => by
    rw [toList_text_array]
    exact .cons (by decide) ((Balanced.joined (balanced_items items)).append
      (.cons (by decide) .nil))
  | .object fields => by
    rw [toList_text_object]
    exact .cons (by decide) ((Balanced.joined (balanced_fields fields)).append
      (.cons (by decide) .nil))

/-- The texts of items leave a reader outside of strings. -/
theorem balanced_items : ∀ items : List Json, ∀ x ∈ items, Balanced x.text.toList
  | [] => by simp
  | x :: xs => List.forall_mem_cons.2 ⟨balanced_text x, balanced_items xs⟩

/-- The texts of members leave a reader outside of strings. -/
theorem balanced_fields :
    ∀ fields : List (String × Json), ∀ f ∈ fields, Balanced (memberText f).toList
  | [] => by simp
  | (name, x) :: rest => by
    refine List.forall_mem_cons.2 ⟨?_, balanced_fields rest⟩
    rw [memberText, String.toList_append, String.toList_append, List.append_assoc]
    exact (balanced_quoted name).append (.cons (by decide) (balanced_text x))

end

/-- No value has a colon and a blank, and behind them the text of another value, at its
end. -/
theorem text_ne_append (v w : Json) (front : List Char) :
    v.text.toList ≠ front ++ ':' :: ' ' :: w.text.toList := by
  intro h
  have hend : outside.after (front ++ ':' :: ' ' :: w.text.toList) = outside :=
    h ▸ v.balanced_text.outside
  have hinside : inside.after w.text.toList ≠ outside := by
    rcases w.balanced_text.inside with hin | hlost
    · rw [hin]; decide
    · rw [hlost]; decide
  rw [after_append, after_cons, after_cons] at hend
  cases hstanding : outside.after front with
  | outside =>
    rw [hstanding] at hend
    exact absurd ((after_lost _).symm.trans hend) (by decide)
  | inside =>
    rw [hstanding] at hend
    exact hinside hend
  | escaped =>
    rw [hstanding] at hend
    exact hinside hend
  | lost =>
    rw [hstanding] at hend
    exact absurd ((after_lost _).symm.trans hend) (by decide)

/-- A name and the text of a value can be told from their common line. -/
theorem named_inj {name name' : String} {v w : Json}
    (h : name ++ ": " ++ v.text = name' ++ ": " ++ w.text) : name = name' ∧ v.text = w.text := by
  have hchars : ∀ (name : String) (v : Json), (name ++ ": " ++ v.text).toList =
      name.toList ++ ':' :: ' ' :: v.text.toList := by
    intro name v
    simp
  have hlist := congrArg String.toList h
  rw [hchars, hchars] at hlist
  have hprefix : ∀ {xs ys : List Char} {v w : Json}, xs ++ ':' :: ' ' :: v.text.toList =
      ys ++ ':' :: ' ' :: w.text.toList → ∀ middle, ys = xs ++ middle → middle = [] := by
    rintro xs _ v w heq middle rfl
    rw [List.append_assoc, List.append_cancel_left_eq] at heq
    match middle, heq with
    | [], _ => rfl
    | [c], heq =>
      simp only [List.cons_append, List.nil_append, List.cons.injEq] at heq
      exact absurd heq.2.1 (by decide)
    | c :: d :: front, heq =>
      simp only [List.cons_append, List.cons.injEq] at heq
      exact absurd heq.2.2 (text_ne_append v w front)
  have hname : name.toList = name'.toList := by
    rcases List.append_eq_append_iff.1 hlist with ⟨middle, hys, -⟩ | ⟨middle, hxs, -⟩
    · have hnil := hprefix hlist middle hys
      rw [hys, hnil, List.append_nil]
    · have hnil := hprefix hlist.symm middle hxs
      rw [hxs, hnil, List.append_nil]
  rw [hname] at hlist
  have htail := List.append_cancel_left hlist
  simp only [List.cons.injEq, true_and] at htail
  exact ⟨String.toList_inj.1 hname, String.toList_inj.1 htail⟩

end Json

end ViewSchema
