import ViewSchema.Diff.Hunk
import ViewSchema.Proofs.Diff.Script

/-!
# Lines of edit scripts

A script says which lines it keeps, deletes and inserts.  Joining neighbouring edits changes nothing
about the lines, apart from the order of deletions and insertions.  So the lines that the script
of two sequences keeps or deletes are the old ones, and those that it keeps or inserts are the new
ones.

Main results:

- Theorem `EditScript.covers_joinFrom`: joined edits have the lines of the edits before.
- Theorem `EditScript.lines_ofLines`: the script of two sequences of lines turns the old one into
  the new one.
- Theorem `Hunk.linesOf_join`: lines that are written with line feeds are the lines of the text.
-/

namespace ViewSchema

namespace EditScript

variable {i j i' j' : Nat}

/-! ## Lines -/

/-- The old lines among changes. -/
def oldLines (changes : List Hunk.LineChange) : List String :=
  changes.filterMap fun
    | .equal line => some line
    | .delete line => some line
    | .insert _ => none

/-- The new lines among changes. -/
def newLines (changes : List Hunk.LineChange) : List String :=
  changes.filterMap fun
    | .equal line => some line
    | .delete _ => none
    | .insert line => some line

/-- The changed and unchanged lines of a script. -/
def changesOf (old new : List String) (edits : List Edit) : List Hunk.LineChange :=
  edits.flatMap (Hunk.changesOf old new)

/-- Changes that lead from a line of each sequence to another one. -/
structure Covers (old new : List String) (i j : Nat) (changes : List Hunk.LineChange)
    (i' j' : Nat) : Prop where
  old_le : i ≤ i'
  new_le : j ≤ j'
  oldLines_eq : oldLines changes = Hunk.slice old ⟨i, i'⟩
  newLines_eq : newLines changes = Hunk.slice new ⟨j, j'⟩

/-- Two slices of lines one behind the other are one. -/
theorem slice_append {lines : List String} {k : Nat} (hfirst : i ≤ k) (hsecond : k ≤ i') :
    Hunk.slice lines ⟨i, k⟩ ++ Hunk.slice lines ⟨k, i'⟩ = Hunk.slice lines ⟨i, i'⟩ := by
  simp only [Hunk.slice, Span.length]
  rw [show i' - i = (k - i) + (i' - k) by omega, List.take_add, List.drop_drop,
    Nat.add_sub_cancel' hfirst]

/-- An empty slice has no lines. -/
theorem slice_self (lines : List String) (i : Nat) : Hunk.slice lines ⟨i, i⟩ = [] := by
  simp [Hunk.slice, Span.length]

variable {old new : List String} {changes others : List Hunk.LineChange} {k l : Nat}

/-- Changes that cover two parts one behind the other cover both. -/
theorem Covers.append (h : Covers old new i j changes k l) (h' : Covers old new k l others i' j') :
    Covers old new i j (changes ++ others) i' j' where
  old_le := Nat.le_trans h.old_le h'.old_le
  new_le := Nat.le_trans h.new_le h'.new_le
  oldLines_eq := by
    rw [oldLines, List.filterMap_append]
    exact (congrArg₂ _ h.oldLines_eq h'.oldLines_eq).trans (slice_append h.old_le h'.old_le)
  newLines_eq := by
    rw [newLines, List.filterMap_append]
    exact (congrArg₂ _ h.newLines_eq h'.newLines_eq).trans (slice_append h.new_le h'.new_le)

/-- Equal runs hold the same lines. -/
theorem slice_eq_of_same {n : Nat}
    (h : ∀ t < n, (Pair.mk old.toArray new.toArray).same (i + t) (j + t) = true) :
    Hunk.slice old ⟨i, i + n⟩ = Hunk.slice new ⟨j, j + n⟩ := by
  refine List.ext_getElem? fun t => ?_
  simp only [Hunk.slice, Span.length, Nat.add_sub_cancel_left, List.getElem?_take,
    List.getElem?_drop]
  split
  · next ht =>
    have hsame := h t ht
    unfold Pair.same at hsame
    split at hsame
    · next hold hnew =>
      simp only [List.getElem?_toArray] at hold hnew
      rw [hold, hnew, beq_iff_eq.1 hsame]
    · cases hsame
  · rfl

/-- A run of equal lines covers the same lines on both sides. -/
theorem covers_equal {n : Nat}
    (h : ∀ t < n, (Pair.mk old.toArray new.toArray).same (i + t) (j + t) = true) :
    Covers old new i j (Hunk.changesOf old new (.equal i j n)) (i + n) (j + n) where
  old_le := Nat.le_add_right i n
  new_le := Nat.le_add_right j n
  oldLines_eq := by simp [oldLines, Hunk.changesOf, Edit.oldSpan]
  newLines_eq := by
    rw [← slice_eq_of_same h]
    simp [newLines, Hunk.changesOf, Edit.oldSpan]

/-- A deletion covers lines of the old side alone. -/
theorem covers_delete (i j n place : Nat) :
    Covers old new i j (Hunk.changesOf old new (.delete i n place)) (i + n) j where
  old_le := Nat.le_add_right i n
  new_le := Nat.le_refl j
  oldLines_eq := by
    simp [oldLines, Hunk.changesOf, Edit.oldSpan, Edit.newSpan, slice_self]
  newLines_eq := by
    simp [newLines, Hunk.changesOf, Edit.oldSpan, Edit.newSpan, slice_self]

/-- An insertion covers lines of the new side alone. -/
theorem covers_insert (i j n place : Nat) :
    Covers old new i j (Hunk.changesOf old new (.insert place j n)) i (j + n) where
  old_le := Nat.le_refl i
  new_le := Nat.le_add_right j n
  oldLines_eq := by
    simp [oldLines, Hunk.changesOf, Edit.oldSpan, Edit.newSpan, slice_self]
  newLines_eq := by
    simp [newLines, Hunk.changesOf, Edit.oldSpan, Edit.newSpan, slice_self]

/-- The changes of edits lead where the edits lead. -/
theorem covers_of_leads {edits : List Edit}
    (h : Leads ⟨old.toArray, new.toArray⟩ i j edits i' j') :
    Covers old new i j (changesOf old new edits) i' j' := by
  induction edits generalizing i j with
  | nil =>
    obtain ⟨rfl, rfl⟩ := h
    exact ⟨Nat.le_refl i, Nat.le_refl j, (slice_self old i).symm, (slice_self new j).symm⟩
  | cons edit rest ih =>
    rw [changesOf, List.flatMap_cons]
    cases edit with
    | equal o n length =>
      obtain ⟨rfl, rfl, hsame, hrest⟩ := h
      exact (covers_equal hsame).append (ih hrest)
    | delete o length n =>
      obtain ⟨rfl, -, hrest⟩ := h
      exact (covers_delete o j length n).append (ih hrest)
    | insert o n length =>
      obtain ⟨rfl, -, hrest⟩ := h
      exact (covers_insert i n length o).append (ih hrest)
    | replace => exact h.elim

/-! ## Joining neighbours -/

namespace Pending

/-- What waits, with deletions and insertions apart. -/
def edits (w : Pending) : List Edit :=
  w.equals ++ (w.deleted.toList.map fun (old, length, new) => Edit.delete old length new) ++
    w.inserted.toList.map fun (old, new, length) => Edit.insert old new length

/-- Either changes wait or an equal run. -/
inductive Sound : Pending → Prop
  | changes (deleted inserted : Option (Nat × Nat × Nat)) : Sound ⟨deleted, inserted, none⟩
  | kept (old new length : Nat) : Sound ⟨none, none, some (old, new, length)⟩

/-- A replacement has the lines of a deletion and an insertion. -/
theorem changesOf_edits (old new : List String) (w : Pending) :
    changesOf old new (w.equals ++ w.changes) = changesOf old new w.edits := by
  obtain ⟨deleted, inserted, kept⟩ := w
  rcases deleted with _ | ⟨o, l, n⟩ <;> rcases inserted with _ | ⟨o', n', l'⟩ <;>
    simp [changesOf, edits, equals, changes, Hunk.changesOf, slice_self, Edit.oldSpan,
      Edit.newSpan]

/-- A deletion joins the one that waits, before an insertion that waits. -/
theorem replaces_delete {p : Pair} (deleted inserted : Option (Nat × Nat × Nat))
    (old length new : Nat) (rest : List Edit) :
    Replaces p ((Pending.mk deleted inserted none).edits ++ .delete old length new :: rest)
      ((Pending.mk (some (match deleted with
        | some (o, l, n) => (o, l + length, n)
        | none => (old, length, new))) inserted none).edits ++ rest) := by
  rcases deleted with _ | ⟨o, l, n⟩ <;> rcases inserted with _ | ⟨o', n', l'⟩
  · exact fun _ _ _ _ h => h
  · exact replaces_insert_delete o' n' l' old length new rest
  · exact EditScript.replaces_delete o l n old length new rest
  · exact fun _ _ _ _ h => EditScript.replaces_delete o l n old length new _ _ _ _ _
      ((replaces_insert_delete o' n' l' old length new rest).append_left [_] _ _ _ _ h)

/-- An insertion joins the one that waits. -/
theorem replaces_insert {p : Pair} (deleted inserted : Option (Nat × Nat × Nat))
    (old new length : Nat) (rest : List Edit) :
    Replaces p ((Pending.mk deleted inserted none).edits ++ .insert old new length :: rest)
      ((Pending.mk deleted (some (match inserted with
        | some (o, n, l) => (o, n, l + length)
        | none => (old, new, length))) none).edits ++ rest) := by
  rcases deleted with _ | ⟨o, l, n⟩ <;> rcases inserted with _ | ⟨o', n', l'⟩
  · exact fun _ _ _ _ h => h
  · exact EditScript.replaces_insert o' n' l' old new length rest
  · exact fun _ _ _ _ h => h
  · exact (EditScript.replaces_insert o' n' l' old new length rest).append_left [_]

end Pending

variable {w : Pending} {rest joined : List Edit}

/-- Edits that wait are written, and others wait. -/
theorem covers_flush (h : Leads ⟨old.toArray, new.toArray⟩ i j (w.edits ++ rest) i' j')
    (hrest : ∀ k l, Leads ⟨old.toArray, new.toArray⟩ k l rest i' j' →
      Covers old new k l (changesOf old new joined) i' j') :
    Covers old new i j (changesOf old new (w.equals ++ w.changes ++ joined)) i' j' := by
  obtain ⟨k, l, hfirst, hmore⟩ := leads_append.1 h
  have hwritten := covers_of_leads hfirst
  rw [← w.changesOf_edits old new] at hwritten
  have hall := hwritten.append (hrest k l hmore)
  rwa [changesOf, changesOf, ← List.flatMap_append] at hall

/-- Joined edits have the lines of the edits before. -/
theorem covers_joinFrom (hw : w.Sound) {edits : List Edit}
    (h : Leads ⟨old.toArray, new.toArray⟩ i j (w.edits ++ edits) i' j') :
    Covers old new i j (changesOf old new (joinFrom w edits)) i' j' := by
  -- What waits stands in front of the edits that are left, and is written or joined by the next.
  induction edits generalizing w i j with
  | nil =>
    rw [List.append_nil] at h
    rw [joinFrom, w.changesOf_edits old new]
    exact covers_of_leads h
  | cons edit rest ih =>
    cases edit with
    | equal o n length =>
      cases hw with
      | changes deleted inserted =>
        exact covers_flush h fun k l hmore => ih (.kept o n length) hmore
      | kept o' n' length' =>
        exact ih (.kept o' n' (length' + length))
          (replaces_equal o' n' length' o n length rest _ _ _ _ h)
    | delete o length n =>
      cases hw with
      | kept o' n' length' =>
        exact covers_flush h fun k l hmore => ih (.changes (some (o, length, n)) none) hmore
      | changes deleted inserted =>
        exact ih (.changes _ inserted)
          (Pending.replaces_delete deleted inserted o length n rest _ _ _ _ h)
    | insert o n length =>
      cases hw with
      | kept o' n' length' =>
        exact covers_flush h fun k l hmore => ih (.changes none (some (o, n, length))) hmore
      | changes deleted inserted =>
        exact ih (.changes deleted _)
          (Pending.replaces_insert deleted inserted o n length rest _ _ _ _ h)
    | replace =>
      obtain ⟨k, l, -, hnone⟩ := leads_append.1 h
      exact hnone.elim

/-- The slice from the front to the end is all lines. -/
theorem slice_all (lines : List String) : Hunk.slice lines ⟨0, lines.length⟩ = lines := by
  simp [Hunk.slice, Span.length]

/-- The script of two sequences of lines turns the old one into the new one: what it keeps or
deletes are the old lines, and what it keeps or inserts the new ones. -/
theorem lines_ofLines (old new : List String) :
    oldLines (changesOf old new (ofLines old new)) = old ∧
      newLines (changesOf old new (ofLines old new)) = new := by
  have hcovers : Covers old new 0 0 (changesOf old new (ofLines old new)) old.length new.length :=
    covers_joinFrom (.changes none none) (leads_compact (leads_shortest ⟨old.toArray, new.toArray⟩))
  exact ⟨hcovers.oldLines_eq.trans (slice_all old), hcovers.newLines_eq.trans (slice_all new)⟩

example : changesOf ["mix", "rest", "bake"] ["rest", "fold", "bake"]
    (ofLines ["mix", "rest", "bake"] ["rest", "fold", "bake"]) =
      [.delete "mix", .equal "rest", .insert "fold", .equal "bake"] := by
  decide +kernel

/-! ## Counting -/

/-- How many lines are inserted, and how many are deleted. -/
def inserted (changes : List Hunk.LineChange) : Nat :=
  (changes.filter Hunk.LineChange.isInsert).length

def deleted (changes : List Hunk.LineChange) : Nat :=
  (changes.filter Hunk.LineChange.isDelete).length

/-- What is inserted is the difference to the old lines that are kept. -/
theorem length_newLines_add_deleted (changes : List Hunk.LineChange) :
    (newLines changes).length + deleted changes = (oldLines changes).length + inserted changes := by
  induction changes with
  | nil => rfl
  | cons change rest ih =>
    cases change <;>
      simp only [newLines, oldLines, inserted, deleted, List.filterMap_cons, List.filter_cons,
        Hunk.LineChange.isInsert, Hunk.LineChange.isDelete, List.length_cons, if_true,
        Bool.false_eq_true, if_false] at ih ⊢ <;> omega

/-- Where nothing is inserted or deleted, the lines are the same. -/
theorem newLines_eq_oldLines {changes : List Hunk.LineChange} (hinserted : inserted changes = 0)
    (hdeleted : deleted changes = 0) : newLines changes = oldLines changes := by
  have hkept : ∀ change ∈ changes, ∃ line, change = .equal line := by
    intro change hchange
    rw [inserted, List.length_eq_zero_iff, List.filter_eq_nil_iff] at hinserted
    rw [deleted, List.length_eq_zero_iff, List.filter_eq_nil_iff] at hdeleted
    cases change with
    | equal line => exact ⟨line, rfl⟩
    | insert line => exact absurd rfl (hinserted _ hchange)
    | delete line => exact absurd rfl (hdeleted _ hchange)
  refine List.filterMap_congr fun change hchange => ?_
  obtain ⟨line, rfl⟩ := hkept change hchange
  rfl

end EditScript

namespace Hunk

/-! ## The lines of a text -/

/-- A text without line breaks. -/
def Unbroken (line : String) : Prop := '\n' ∉ line.toList ∧ '\r' ∉ line.toList

instance (line : String) : Decidable (Unbroken line) := instDecidableAnd

/-- A character goes on with the line that is pending, or ends it. -/
theorem linesFrom_cons {c : Char} (hc : c ≠ '\r') (pending rest : List Char) :
    linesFrom pending (c :: rest) =
      if c = '\n' then String.ofList (c :: pending).reverse :: linesFrom [] rest
      else linesFrom (c :: pending) rest := by
  rw [linesFrom]
  · simp only [hc, or_false]
  · rintro _ rfl
    exact absurd rfl hc

/-- A line without breaks is read up to its end. -/
theorem linesFrom_append {cs : List Char} (h : ∀ c ∈ cs, c ≠ '\n' ∧ c ≠ '\r')
    (pending rest : List Char) : linesFrom pending (cs ++ '\n' :: rest) =
      String.ofList (pending.reverse ++ cs ++ ['\n']) :: linesFrom [] rest := by
  induction cs generalizing pending with
  | nil => simp [linesFrom_cons]
  | cons c cs ih =>
    obtain ⟨⟨hfeed, hreturn⟩, hcs⟩ := List.forall_mem_cons.1 h
    rw [List.cons_append, linesFrom_cons hreturn, if_neg hfeed, ih hcs]
    simp

/-- Lines that are written with line feeds are the lines of the text. -/
theorem linesOf_join {lines : List String} (h : ∀ line ∈ lines, Unbroken line) :
    linesOf (String.join (lines.map (· ++ "\n"))) = lines.map (· ++ "\n") := by
  rw [linesOf, String.toList_join]
  induction lines with
  | nil => rfl
  | cons line rest ih =>
    obtain ⟨⟨hfeed, hreturn⟩, hrest⟩ := List.forall_mem_cons.1 h
    have hline : ∀ c ∈ line.toList, c ≠ '\n' ∧ c ≠ '\r' := fun c hc =>
      ⟨fun heq => hfeed (heq ▸ hc), fun heq => hreturn (heq ▸ hc)⟩
    have htext : ((line :: rest).map (· ++ "\n")).flatMap String.toList =
        line.toList ++ '\n' :: (rest.map (· ++ "\n")).flatMap String.toList := by simp
    have hfirst : String.ofList ([].reverse ++ line.toList ++ ['\n']) = line ++ "\n" := by
      rw [← String.toList_inj]
      simp
    rw [htext, linesFrom_append hline, hfirst, ih hrest, List.map_cons]

end Hunk

end ViewSchema
