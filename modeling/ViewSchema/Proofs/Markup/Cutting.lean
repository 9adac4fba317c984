import ViewSchema.Proofs.Markup.Grammar

/-!
# Cutting a source into texts and tags

A source is cut at its tags: a stretch in which no tag begins, a tag, and so on behind the tag.
This says which pieces a source has without saying how they are found, and there is one way only
to cut a source.

Main results:

- Definition `Piece.Cut`: the pieces of a source.
- Theorem `Piece.cut_iff`: the scanner finds the pieces of a source, and nothing else is a cut.
-/

namespace ViewSchema

namespace Markup

/-- A tag begins here, behind its opening bracket, wherever its values end. -/
def Tag.Begins (cs : List Char) : Prop :=
  ∃ written after t, cs = written ++ after ∧ Tag.TagText false written t

/-- Where the scanner reads no tag, none begins. -/
theorem Tag.read?_eq_none_iff {cs : List Char} : Tag.read? cs = none ↔ ¬ Tag.Begins cs := by
  constructor
  · rintro hnone ⟨written, after, t, rfl, htext⟩
    obtain ⟨greedy, hgreedy⟩ := htext.exists_greedy
    rw [hgreedy.read? after] at hnone
    cases hnone
  · intro hbegins
    cases hread : Tag.read? cs with
    | none => rfl
    | some result =>
      obtain ⟨t, after⟩ := result
      obtain ⟨written, hcs, htext⟩ := Tag.read?_eq_some_iff.1 hread
      exact absurd ⟨written, after, t, hcs, htext.loosen⟩ hbegins

namespace Piece

/-- A stretch between tags as a piece, unless it is empty. -/
def ofText (raw : List Char) : List Piece := if raw.isEmpty then [] else [text raw]

/-- No tag begins in a stretch of source, also none that ends in what stands behind it. -/
def Plain (raw behind : List Char) : Prop :=
  ∀ front back, raw = front ++ '<' :: back → ¬ Tag.Begins (back ++ behind)

/-- The pieces of a source: the stretches between its tags, and the tags. -/
inductive Cut : List Char → List Piece → Prop where
  | ending {raw : List Char} (hplain : Plain raw []) : Cut raw (ofText raw)
  | tag {raw written rest : List Char} {t : Tag} {pieces : List Piece}
    (hplain : Plain raw ('<' :: (written ++ rest))) (htag : Tag.TagText true written t)
    (hrest : Cut rest pieces) :
    Cut (raw ++ '<' :: (written ++ rest)) (ofText raw ++ Piece.tag t :: pieces)

variable {raw cs pending rest : List Char} {pieces : List Piece}

/-! ## The scanner -/

/-- Characters of a tag that has been read are passed over. -/
theorem scanFrom_length (xs : List Char) :
    scanFrom xs.length pending (xs ++ rest) = scanFrom 0 pending rest := by
  induction xs with
  | nil => rfl
  | cons x xs ih => simpa [scanFrom] using ih

/-- A tag ends the text before it, and the scan goes on behind it. -/
theorem scanFrom_tag {xs : List Char} {t : Tag} (h : Tag.read? (xs ++ rest) = some (t, rest)) :
    scanFrom 0 pending ('<' :: (xs ++ rest)) = flush pending ++ tag t :: scanFrom 0 [] rest := by
  have hskip : (xs ++ rest).length - rest.length = xs.length := by
    rw [List.length_append]
    omega
  rw [scanFrom, if_pos rfl, h]
  simp only [hskip, scanFrom_length]

theorem flush_reverse (raw : List Char) : flush raw.reverse = ofText raw := by
  simp [flush, ofText]

/-! ## Plain stretches -/

theorem plain_nil (behind : List Char) : Plain [] behind := by
  intro front back hsplit
  exact absurd hsplit.symm (List.append_ne_nil_of_right_ne_nil _ (List.cons_ne_nil _ _))

/-- What stands behind the first character of a plain stretch is plain. -/
theorem Plain.tail {c : Char} {behind : List Char} (h : Plain (c :: raw) behind) :
    Plain raw behind := by
  intro front back hsplit
  exact h (c :: front) back (by rw [hsplit, List.cons_append])

/-- A plain stretch goes on over a character at which no tag begins. -/
theorem Plain.concat {c : Char} (h : Plain raw (c :: cs)) (hc : c = '<' → ¬ Tag.Begins cs) :
    Plain (raw ++ [c]) cs := by
  intro front back hsplit
  rcases List.eq_nil_or_concat back with rfl | ⟨before, last, rfl⟩
  · obtain ⟨-, hlast⟩ := List.append_inj' hsplit rfl
    exact hc (by simpa using hlast)
  · rw [List.concat_eq_append] at hsplit ⊢
    rw [← List.cons_append, ← List.append_assoc] at hsplit
    obtain ⟨hraw, hlast⟩ := List.append_inj' hsplit rfl
    have hsame : c = last := by simpa using hlast
    rw [List.append_assoc, List.singleton_append, ← hsame]
    exact h front before hraw

/-- The scanner holds back a stretch in which no tag begins. -/
theorem scanFrom_plain (h : Plain raw cs) :
    scanFrom 0 pending (raw ++ cs) = scanFrom 0 (raw.reverse ++ pending) cs := by
  induction raw generalizing pending with
  | nil => rfl
  | cons c raw ih =>
    have hrest : scanFrom 0 (c :: pending) (raw ++ cs) =
        scanFrom 0 (raw.reverse ++ c :: pending) cs := ih h.tail
    rw [List.reverse_cons, List.append_assoc, List.singleton_append, ← hrest, List.cons_append,
      scanFrom]
    by_cases hc : c = '<'
    · have hnone : Tag.read? (raw ++ cs) = none := by
        apply Tag.read?_eq_none_iff.2
        exact h [] raw (by rw [hc, List.nil_append])
      rw [if_pos hc, hnone]
    · rw [if_neg hc]

/-! ## The cut of a source -/

/-- The scanner finds the pieces of any cut. -/
theorem Cut.eq_scanFrom (h : Cut cs pieces) : pieces = scanFrom 0 [] cs := by
  induction h with
  | @ending raw hplain =>
    have hscan : scanFrom 0 [] (raw ++ []) = scanFrom 0 (raw.reverse ++ []) [] :=
      scanFrom_plain hplain
    rw [List.append_nil, List.append_nil] at hscan
    rw [hscan, scanFrom, flush_reverse]
  | @tag raw written rest t pieces hplain htag hrest ih =>
    rw [scanFrom_plain hplain, List.append_nil, scanFrom_tag (htag.read? rest), flush_reverse, ih]

/-- What the scanner finds behind a plain stretch cuts the stretch and what follows. -/
theorem cut_scanFrom (h : Plain raw cs) : Cut (raw ++ cs) (scanFrom 0 raw.reverse cs) := by
  induction hlength : cs.length using Nat.strong_induction_on generalizing raw cs with
  | _ length ih =>
    cases cs with
    | nil =>
      rw [scanFrom, flush_reverse, List.append_nil]
      exact .ending h
    | cons c rest =>
      have hshort : rest.length < length := by simp [← hlength]
      by_cases htag : c = '<' ∧ Tag.Begins rest
      · obtain ⟨rfl, hbegins⟩ := htag
        obtain ⟨⟨t, after⟩, hread⟩ : ∃ result, Tag.read? rest = some result := by
          apply Option.ne_none_iff_exists'.1
          exact fun hnone => Tag.read?_eq_none_iff.1 hnone hbegins
        obtain ⟨written, rfl, htext⟩ := Tag.read?_eq_some_iff.1 hread
        have hafter : after.length < length := by
          rw [List.length_append] at hshort
          omega
        have hcut := ih after.length hafter (plain_nil after) rfl
        rw [scanFrom_tag hread, flush_reverse]
        exact .tag h htext hcut
      · have hnone : c = '<' → ¬ Tag.Begins rest := fun hc hbegins => htag ⟨hc, hbegins⟩
        have hcut := ih rest.length hshort (h.concat hnone) rfl
        have hstep : scanFrom 0 raw.reverse (c :: rest) = scanFrom 0 (raw ++ [c]).reverse rest := by
          rw [List.reverse_append, List.reverse_singleton, List.singleton_append, scanFrom]
          by_cases hc : c = '<'
          · rw [if_pos hc, Tag.read?_eq_none_iff.2 (hnone hc)]
          · rw [if_neg hc]
        rw [hstep]
        simpa using hcut

/-- The scanner finds the pieces of a source, and nothing else is a cut of it. -/
theorem cut_iff {source : String} : Cut source.toList pieces ↔ pieces = scan source := by
  constructor
  · exact Cut.eq_scanFrom
  · rintro rfl
    exact cut_scanFrom (plain_nil source.toList)

end Piece

end Markup

end ViewSchema
