import Mathlib.Data.List.Induction
import ViewSchema.Proofs.Markup.Entity

/-!
# Decoding in one pass

Entities are decoded kind by kind, and each round reads what the rounds before it have written.
No round disturbs another one: an entity has its only ampersand at the front, so entities do not
overlap, and what a round writes is no part of any entity that is decoded later.  All rounds
together therefore replace each entity once, where it stands, and copy every other character.

Main results:

- Theorem `Entity.replaceAll_decodeFrom`: a round after a pass is a pass for one more entity.
- Theorem `Entity.foldl_replaceAll`: rounds for any entities that are in order are one pass.
- Theorem `Entity.decode_undoes_once`: decoding undoes both kinds of escaping, and decodes nothing
  twice.
-/

namespace ViewSchema

namespace Entity

variable {entities : List (List Char × Char)} {entry : List Char × Char} {rest : List Char}

/-! ## Entities in a text -/

/-- An entity begins with an ampersand and has no other one. -/
def IsEntity (name : List Char) : Prop := ∃ letters, name = '&' :: letters ∧ '&' ∉ letters

/-- What stands behind an entity is shorter than the entity and what stands behind it. -/
theorem IsEntity.length_lt {name : List Char} (h : IsEntity name) (after : List Char) :
    after.length < (name ++ after).length := by
  obtain ⟨letters, rfl, -⟩ := h
  rw [List.length_append, List.length_cons]
  omega

/-- The entity at the front of a text, if one stands there. -/
def entityAt? (entities : List (List Char × Char)) (cs : List Char) : Option (List Char × Char) :=
  entities.find? fun entry => entry.1.isPrefixOf cs

theorem exists_of_entityAt? {cs : List Char} (h : entityAt? entities cs = some entry) :
    entry ∈ entities ∧ ∃ after, cs = entry.1 ++ after := by
  have hfront : entry.1.isPrefixOf cs = true := by
    simpa using List.find?_some h
  obtain ⟨after, hafter⟩ := List.isPrefixOf_iff_prefix.1 hfront
  exact ⟨List.mem_of_find?_eq_some h, after, hafter.symm⟩

/-- One more entity is looked for where none of the others stands. -/
theorem entityAt?_concat (entry : List Char × Char) (cs : List Char) :
    entityAt? (entities ++ [entry]) cs =
      (entityAt? entities cs).or (if entry.1 <+: cs then some entry else none) := by
  unfold entityAt?
  rw [List.find?_append, List.find?_singleton]
  simp only [List.isPrefixOf_iff_prefix]

/-- No entity begins at a character that is not an ampersand. -/
theorem entityAt?_cons_of_ne (h : ∀ e ∈ entities, IsEntity e.1) {c : Char} (hc : c ≠ '&') :
    entityAt? entities (c :: rest) = none := by
  unfold entityAt?
  rw [List.find?_eq_none]
  intro e he
  obtain ⟨letters, hletters, -⟩ := h e he
  simp [hletters, List.isPrefixOf, hc.symm]

/-! ## One pass -/

/-- Decode entities in one pass: where one stands it is replaced by its character, and any other
character is copied. `skip` characters belong to an entity that has been replaced already. -/
def decodeFrom (entities : List (List Char × Char)) : Nat → List Char → List Char
  | _, [] => []
  | skip + 1, _ :: rest => decodeFrom entities skip rest
  | 0, c :: rest =>
    match entityAt? entities (c :: rest) with
    | some entry => entry.2 :: decodeFrom entities (entry.1.length - 1) rest
    | none => c :: decodeFrom entities 0 rest

/-- Decode the entities of a text in one pass from its front to its end. -/
def decodeOnce (text : String) : String := String.ofList (decodeFrom table 0 text.toList)

/-- Characters of an entity that has been replaced are passed over. -/
theorem decodeFrom_length (xs : List Char) :
    decodeFrom entities xs.length (xs ++ rest) = decodeFrom entities 0 rest := by
  induction xs with
  | nil => rfl
  | cons x xs ih => simpa [decodeFrom] using ih

/-- An entity is replaced where it stands. -/
theorem decodeFrom_entity (hentity : IsEntity entry.1)
    (hfind : entityAt? entities (entry.1 ++ rest) = some entry) :
    decodeFrom entities 0 (entry.1 ++ rest) = entry.2 :: decodeFrom entities 0 rest := by
  obtain ⟨letters, hletters, -⟩ := hentity
  rw [hletters, List.cons_append] at hfind ⊢
  rw [decodeFrom, hfind]
  simp only [hletters, List.length_cons, Nat.add_sub_cancel, decodeFrom_length]

/-- A character is copied where no entity stands. -/
theorem decodeFrom_cons_of_none {c : Char} (hfind : entityAt? entities (c :: rest) = none) :
    decodeFrom entities 0 (c :: rest) = c :: decodeFrom entities 0 rest := by
  rw [decodeFrom, hfind]

/-- Characters other than ampersands are copied. -/
theorem decodeFrom_append_of_not_mem (h : ∀ e ∈ entities, IsEntity e.1) {xs : List Char}
    (hxs : '&' ∉ xs) :
    decodeFrom entities 0 (xs ++ rest) = xs ++ decodeFrom entities 0 rest := by
  induction xs with
  | nil => rfl
  | cons x xs ih =>
    rw [List.mem_cons, not_or] at hxs
    rw [List.cons_append, decodeFrom_cons_of_none (entityAt?_cons_of_ne h (Ne.symm hxs.1)),
      ih hxs.2, List.cons_append]

/-- An entity of another kind is copied. -/
theorem decodeFrom_other (h : ∀ e ∈ entities, IsEntity e.1) (hentry : IsEntity entry.1)
    (hnone : entityAt? entities (entry.1 ++ rest) = none) :
    decodeFrom entities 0 (entry.1 ++ rest) = entry.1 ++ decodeFrom entities 0 rest := by
  obtain ⟨letters, hletters, hplain⟩ := hentry
  rw [hletters, List.cons_append] at hnone ⊢
  rw [decodeFrom_cons_of_none hnone, decodeFrom_append_of_not_mem h hplain, List.cons_append]

/-- A pass for no entities copies everything. -/
theorem decodeFrom_nil (cs : List Char) : decodeFrom [] 0 cs = cs := by
  induction cs with
  | nil => rfl
  | cons c cs ih => rw [decodeFrom_cons_of_none rfl, ih]

/-- What stands at the front after a pass stood there before, if it holds nothing that the pass
writes. -/
theorem prefix_of_prefix_decodeFrom {letters cs : List Char}
    (hletters : ∀ e ∈ entities, e.2 ∉ letters) (h : letters <+: decodeFrom entities 0 cs) :
    letters <+: cs := by
  induction letters generalizing cs with
  | nil => exact List.nil_prefix
  | cons x letters ih =>
    cases cs with
    | nil => exact h
    | cons c cs =>
      cases hfind : entityAt? entities (c :: cs) with
      | some e =>
        rw [decodeFrom, hfind] at h
        have hx : x = e.2 := (List.cons_prefix_cons.1 h).1
        exact absurd (hx ▸ List.mem_cons_self) (hletters e (exists_of_entityAt? hfind).1)
      | none =>
        rw [decodeFrom_cons_of_none hfind, List.cons_prefix_cons] at h
        have hrest : letters <+: cs :=
          ih (fun e he hin => hletters e he (List.mem_cons_of_mem _ hin)) h.2
        exact List.cons_prefix_cons.2 ⟨h.1, hrest⟩

/-! ## Rounds -/

/-- A round replaces its entity. -/
theorem replaceAll_pattern (hentry : IsEntity entry.1) (cs : List Char) :
    replaceAll entry.1 [entry.2] (entry.1 ++ cs) =
      entry.2 :: replaceAll entry.1 [entry.2] cs := by
  obtain ⟨letters, hletters, -⟩ := hentry
  unfold replaceAll
  rw [hletters, replaceFrom_pattern]
  rfl

/-- A round copies a character at which its entity does not stand. -/
theorem replaceAll_cons_of_not_prefix {c : Char} {cs : List Char} (h : ¬ entry.1 <+: c :: cs) :
    replaceAll entry.1 [entry.2] (c :: cs) = c :: replaceAll entry.1 [entry.2] cs := by
  have hfront : ¬ entry.1.isPrefixOf (c :: cs) = true := by
    rw [List.isPrefixOf_iff_prefix]
    exact h
  unfold replaceAll
  rw [replaceFrom, if_neg hfront]

/-- A round after a pass is a pass for one more entity. -/
theorem replaceAll_decodeFrom (h : ∀ e ∈ entities, IsEntity e.1) (hentry : IsEntity entry.1)
    (hfree : ∀ e ∈ entities, e.2 ∉ entry.1) (cs : List Char) :
    replaceAll entry.1 [entry.2] (decodeFrom entities 0 cs) =
      decodeFrom (entities ++ [entry]) 0 cs := by
  -- An entity is several characters long, so what stands behind it is any shorter text.
  induction hlength : cs.length using Nat.strongRecOn generalizing cs with
  | ind n ih =>
    subst hlength
    cases cs with
    | nil => rfl
    | cons c rest =>
      have hlater : entityAt? (entities ++ [entry]) (c :: rest) =
          (entityAt? entities (c :: rest)).or
            (if entry.1 <+: c :: rest then some entry else none) := entityAt?_concat entry _
      cases hfind : entityAt? entities (c :: rest) with
      | some e =>
        -- An entity of the pass: what stands in its place is no ampersand.
        obtain ⟨he, after, hafter⟩ := exists_of_entityAt? hfind
        have hkept : ¬ entry.1 <+: e.2 :: decodeFrom entities 0 after := by
          obtain ⟨letters, hletters, -⟩ := hentry
          intro hfront
          apply hfree e he
          rw [hletters, List.cons_prefix_cons] at hfront
          rw [hletters, hfront.1]
          exact List.mem_cons_self
        rw [hfind, Option.some_or] at hlater
        rw [hafter] at hfind hlater ih ⊢
        rw [decodeFrom_entity (h e he) hfind, decodeFrom_entity (h e he) hlater,
          ← ih _ ((h e he).length_lt after) after rfl, replaceAll_cons_of_not_prefix hkept]
      | none =>
        rw [hfind, Option.none_or] at hlater
        by_cases hfront : entry.1 <+: c :: rest
        · -- The entity of the round: the pass has copied it.
          rw [if_pos hfront] at hlater
          obtain ⟨after, hafter⟩ := hfront
          rw [← hafter] at hfind hlater ih ⊢
          rw [decodeFrom_other h hentry hfind, decodeFrom_entity hentry hlater,
            ← ih _ (hentry.length_lt after) after rfl, replaceAll_pattern hentry]
        · -- No entity: the round does not find one either, since it would have been copied.
          rw [if_neg hfront] at hlater
          have hcopied := decodeFrom_cons_of_none hfind
          have hnone : ¬ entry.1 <+: c :: decodeFrom entities 0 rest := by
            rw [← hcopied]
            intro hwritten
            exact hfront (prefix_of_prefix_decodeFrom hfree hwritten)
          rw [hcopied, decodeFrom_cons_of_none hlater, replaceAll_cons_of_not_prefix hnone,
            ih _ (Nat.lt_succ_self rest.length) rest rfl]

/-- Entities in an order in which they can be decoded one after the other: what stands for one of
them is no part of a later one. -/
structure InOrder (entities : List (List Char × Char)) : Prop where
  isEntity : ∀ entry ∈ entities, IsEntity entry.1
  apart : entities.Pairwise fun earlier later => earlier.2 ∉ later.1

/-- Rounds for entities in order are one pass for all of them. -/
theorem foldl_replaceAll (h : InOrder entities) (cs : List Char) :
    entities.foldl (fun acc entry => replaceAll entry.1 [entry.2] acc) cs =
      decodeFrom entities 0 cs := by
  induction entities using List.reverseRecOn with
  | nil => exact (decodeFrom_nil cs).symm
  | append_singleton earlier entry ih =>
    have hapart := List.pairwise_append.1 h.apart
    have hearlier : ∀ e ∈ earlier, IsEntity e.1 :=
      fun e he => h.isEntity e (List.mem_append_left _ he)
    have hentry : IsEntity entry.1 :=
      h.isEntity entry (List.mem_append_right _ List.mem_cons_self)
    rw [List.foldl_append, ih ⟨hearlier, hapart.1⟩]
    exact replaceAll_decodeFrom hearlier hentry
      (fun e he => hapart.2.2 e he entry List.mem_cons_self) cs

/-- The ampersand, which is part of every entity, is decoded last. -/
theorem inOrder_table : InOrder table := by
  constructor
  · intro entry hentry
    simp only [table, List.mem_cons, List.not_mem_nil, or_false] at hentry
    rcases hentry with rfl | rfl | rfl | rfl | rfl | rfl <;> exact ⟨_, rfl, by decide⟩
  · decide

/-- All rounds together are one pass. -/
theorem decodeChars_eq_decodeFrom (cs : List Char) : decodeChars cs = decodeFrom table 0 cs :=
  foldl_replaceAll inOrder_table cs

theorem decode_eq_decodeOnce (text : String) : decode text = decodeOnce text := by
  rw [decode, decodeChars_eq_decodeFrom]
  rfl

/-- Characters are decoded like the text that they make up. -/
theorem ofList_decodeChars (cs : List Char) :
    String.ofList (decodeChars cs) = decodeOnce (String.ofList cs) := by
  rw [decodeOnce, String.toList_ofList, decodeChars_eq_decodeFrom]

/-- Decoding undoes the escaping of texts and of attribute values. And of any text it replaces each
entity once, where it stands, and copies every other character. -/
theorem decode_undoes_once :
    (∀ text, decode (escapeText text) = text) ∧
      (∀ text, decode (escapeAttribute text) = text) ∧
      ∀ text, decode text = decodeOnce text := by
  refine ⟨?_, ?_, ?_⟩
  · intro text
    rw [decode, escapeText, String.toList_ofList, decodeChars_escapeText, String.ofList_toList]
  · intro text
    rw [decode, escapeAttribute, String.toList_ofList, decodeChars_escapeAttribute,
      String.ofList_toList]
  · exact decode_eq_decodeOnce

/-- What decoding writes is not decoded again. -/
example : decodeOnce "&amp;lt; &am&gt;p; &&quot;" = "&lt; &am>p; &\"" := by decide

end Entity

end ViewSchema
