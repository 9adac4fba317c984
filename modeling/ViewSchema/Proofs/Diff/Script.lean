import ViewSchema.Proofs.Diff.Middle

/-!
# Where edits lead

Edits lead from two positions to two others when each begins where the one before it ends, and what
it keeps is equal.  A shortest list of edits leads from the start of two sequences to their end: a
middle divides them into shorter ones.  Moving an edit over its neighbour, and joining the two,
changes nothing about where edits lead.

Main results:

- Theorem `leads_shortest`: shortest edits lead from the start of two sequences to their end.
- Theorem `leads_compact`: moved and joined edits lead where they led before.
-/

namespace ViewSchema

namespace EditScript

variable {p : Pair} {i j i' j' : Nat} {xs ys : List Edit}

/-! ## Edits from one position to another -/

/-- Whether edits lead from a position in each sequence to another one: each begins where the one
before it ends.  The place of a deletion in the new sequence and that of an insertion in the old
one do not matter: where neighbours change places these are not adjusted. -/
def Leads (p : Pair) (i j : Nat) : List Edit → Nat → Nat → Prop
  | [], i', j' => i = i' ∧ j = j'
  | .equal old new length :: rest, i', j' => old = i ∧ new = j ∧
      (∀ t < length, p.same (i + t) (j + t) = true) ∧ Leads p (i + length) (j + length) rest i' j'
  | .delete old length _ :: rest, i', j' => old = i ∧ i + length ≤ p.old.size ∧
      Leads p (i + length) j rest i' j'
  | .insert _ new length :: rest, i', j' => new = j ∧ j + length ≤ p.new.size ∧
      Leads p i (j + length) rest i' j'
  | .replace _ _ _ _ :: _, _, _ => False

/-- Edits that lead somewhere pass through a place between any two parts. -/
theorem leads_append : Leads p i j (xs ++ ys) i' j' ↔
    ∃ k l, Leads p i j xs k l ∧ Leads p k l ys i' j' := by
  induction xs generalizing i j with
  | nil => simp [Leads]
  | cons edit xs ih => cases edit <;> simp [Leads, ih, and_assoc]

/-- Lines that are the same are there. -/
theorem Pair.same_lt (h : p.same i j = true) : i < p.old.size ∧ j < p.new.size := by
  unfold Pair.same at h
  split at h
  · next hold hnew =>
    exact ⟨(Array.getElem?_eq_some_iff.1 hold).1, (Array.getElem?_eq_some_iff.1 hnew).1⟩
  · cases h

/-- Equal runs one after the other. -/
theorem same_add {n m : Nat} (hfirst : ∀ t < n, p.same (i + t) (j + t) = true)
    (hsecond : ∀ t < m, p.same (i + n + t) (j + n + t) = true) :
    ∀ t < n + m, p.same (i + t) (j + t) = true := by
  intro t ht
  by_cases hlt : t < n
  · exact hfirst t hlt
  · have := hsecond (t - n) (by omega)
    rwa [Nat.add_assoc, Nat.add_sub_cancel' (by omega), Nat.add_assoc,
      Nat.add_sub_cancel' (by omega)] at this

/-! ## Shortest scripts -/

/-- A run of equal lines leads along it, and takes no edit if it is empty. -/
theorem leads_equal_of_pos {n : Nat} (h : ∀ t < n, p.same (i + t) (j + t) = true) :
    Leads p i j (if 0 < n then [Edit.equal i j n] else []) (i + n) (j + n) := by
  split
  · exact ⟨rfl, rfl, h, rfl, rfl⟩
  · next hzero =>
    obtain rfl : n = 0 := by omega
    exact ⟨rfl, rfl⟩

/-- The edits between two spans without what they share at their ends. -/
def innerEdits (p : Pair) (fuel : Nat) (old new : Span) : List Edit :=
  if old.isEmpty && new.isEmpty then []
  else if new.isEmpty then [.delete old.start old.length new.start]
  else if old.isEmpty then [.insert old.start new.start new.length]
  else
    match middle? p old new with
    | some (i, j) =>
      shortestBetween p fuel ⟨old.start, i⟩ ⟨new.start, j⟩
        ++ shortestBetween p fuel ⟨i, old.stop⟩ ⟨j, new.stop⟩
    | none => [.delete old.start old.length new.start, .insert old.start new.start new.length]

/-- The edits between two spans: a run at the front, what differs, and a run at the end. -/
theorem shortestBetween_succ {fuel front back : Nat} {old new : Span}
    (hfront : p.commonPrefix old new = front)
    (hback : p.commonSuffix ⟨old.start + front, old.stop⟩ ⟨new.start + front, new.stop⟩ = back) :
    shortestBetween p (fuel + 1) old new =
      (if 0 < front then [Edit.equal old.start new.start front] else []) ++
        innerEdits p fuel ⟨old.start + front, old.stop - back⟩
          ⟨new.start + front, new.stop - back⟩ ++
        (if 0 < back then [Edit.equal (old.stop - back) (new.stop - back) back] else []) := by
  subst hfront hback
  rfl

/-- Without what they share at their ends, spans differ there. -/
theorem apart_inner {front back : Nat} {old new : Span} (hfront : p.commonPrefix old new = front)
    (hback : p.commonSuffix ⟨old.start + front, old.stop⟩ ⟨new.start + front, new.stop⟩ = back)
    (hold : old.start + front < old.stop - back) (hnew : new.start + front < new.stop - back) :
    Apart p ⟨old.start + front, old.stop - back⟩ ⟨new.start + front, new.stop - back⟩ where
  old_nonempty := hold
  new_nonempty := hnew
  first := by
    have hdiffer := p.not_same_commonPrefix old new
    rw [hfront] at hdiffer
    simp only [Span.length] at hdiffer
    exact hdiffer (by omega) (by omega)
  last := by
    have hdiffer :=
      p.not_same_commonSuffix ⟨old.start + front, old.stop⟩ ⟨new.start + front, new.stop⟩
    rw [hback] at hdiffer
    simp only [Span.length] at hdiffer
    exact hdiffer (by omega) (by omega)

/-- A span is empty if it stops where it starts, or before. -/
theorem isEmpty_iff {s : Span} : s.isEmpty = true ↔ s.stop ≤ s.start := decide_eq_true_iff

/-- A span of a sequence of some size. -/
structure Within (s : Span) (size : Nat) : Prop where
  start_le_stop : s.start ≤ s.stop
  stop_le_size : s.stop ≤ size

/-- The edits between two spans lead from their start to their end, if those between shorter ones
do. -/
theorem leads_innerEdits (fuel : Nat) (old new : Span) (hold : Within old p.old.size)
    (hnew : Within new p.new.size) (hfuel : old.length + new.length ≤ fuel)
    (hapart : old.start < old.stop → new.start < new.stop → Apart p old new)
    (ih : ∀ old new : Span, Within old p.old.size → Within new p.new.size →
      old.length + new.length < fuel →
      Leads p old.start new.start (shortestBetween p fuel old new) old.stop new.stop) :
    Leads p old.start new.start (innerEdits p fuel old new) old.stop new.stop := by
  obtain ⟨holdSpan, holdSize⟩ := hold
  obtain ⟨hnewSpan, hnewSize⟩ := hnew
  have hdelete : old.start + old.length = old.stop := Nat.add_sub_cancel' holdSpan
  have hinsert : new.start + new.length = new.stop := Nat.add_sub_cancel' hnewSpan
  unfold innerEdits
  simp only [Bool.and_eq_true, isEmpty_iff]
  split
  · exact ⟨by omega, by omega⟩
  split
  · exact ⟨rfl, by omega, hdelete, by omega⟩
  split
  · exact ⟨rfl, by omega, by omega, hinsert⟩
  split
  · next i j hmiddle =>
    obtain ⟨hstartOld, hstopOld, hstartNew, hstopNew, hafter, hbefore⟩ :=
      interior_middle? (hapart (by omega) (by omega)) hmiddle
    simp only at hstartOld hstopOld hstartNew hstopNew hafter hbefore
    have hfront := ih ⟨old.start, i⟩ ⟨new.start, j⟩ ⟨hstartOld, Nat.le_trans hstopOld holdSize⟩
      ⟨hstartNew, Nat.le_trans hstopNew hnewSize⟩ (by simp only [Span.length]; omega)
    have hback := ih ⟨i, old.stop⟩ ⟨j, new.stop⟩ ⟨hstopOld, holdSize⟩ ⟨hstopNew, hnewSize⟩
      (by simp only [Span.length]; omega)
    exact leads_append.2 ⟨i, j, hfront, hback⟩
  · exact ⟨rfl, by omega, rfl, by omega, hdelete, hinsert⟩

/-- Shortest edits lead from the start of two spans to their end. -/
theorem leads_shortestBetween (fuel : Nat) : ∀ old new : Span, Within old p.old.size →
    Within new p.new.size → old.length + new.length < fuel →
    Leads p old.start new.start (shortestBetween p fuel old new) old.stop new.stop := by
  induction fuel with
  | zero => exact fun _ _ _ _ hfuel => absurd hfuel (Nat.not_lt_zero _)
  | succ fuel ih =>
    -- First what the spans share in front, then what the rest shares behind, then what is between.
    rintro old new ⟨hold, holdSize⟩ ⟨hnew, hnewSize⟩ hfuel
    obtain ⟨hfrontOld, hfrontNew⟩ := p.commonPrefix_le old new
    have hhead := leads_equal_of_pos fun t ht => p.same_of_lt_commonPrefix old new ht
    generalize hfront : p.commonPrefix old new = front at *
    obtain ⟨hbackOld, hbackNew⟩ :=
      p.commonSuffix_le ⟨old.start + front, old.stop⟩ ⟨new.start + front, new.stop⟩
    have htail := leads_equal_of_pos fun t ht =>
      p.same_of_lt_commonSuffix ⟨old.start + front, old.stop⟩ ⟨new.start + front, new.stop⟩ ht
    generalize hback : p.commonSuffix ⟨old.start + front, old.stop⟩ ⟨new.start + front, new.stop⟩ =
      back at *
    simp only [Span.length] at hfrontOld hfrontNew hbackOld hbackNew hfuel
    have hinner := leads_innerEdits fuel ⟨old.start + front, old.stop - back⟩
      ⟨new.start + front, new.stop - back⟩ ⟨by simp only; omega, by simp only; omega⟩
      ⟨by simp only; omega, by simp only; omega⟩ (by simp only [Span.length]; omega)
      (apart_inner hfront hback) ih
    rw [shortestBetween_succ hfront hback]
    rw [Nat.sub_add_cancel (by simp only; omega), Nat.sub_add_cancel (by simp only; omega)] at htail
    exact leads_append.2 ⟨_, _, leads_append.2 ⟨_, _, hhead, hinner⟩, htail⟩

/-- A shortest list of edits leads from the start of two sequences to their end. -/
theorem leads_shortest (p : Pair) : Leads p 0 0 (shortest p) p.old.size p.new.size :=
  leads_shortestBetween _ ⟨0, p.old.size⟩ ⟨0, p.new.size⟩ ⟨Nat.zero_le _, Nat.le_refl _⟩
    ⟨Nat.zero_le _, Nat.le_refl _⟩ (Nat.lt_succ_self _)

/-! ## Moving edits -/

/-- Edits that lead wherever others lead. -/
def Replaces (p : Pair) (xs ys : List Edit) : Prop :=
  ∀ i j i' j', Leads p i j xs i' j' → Leads p i j ys i' j'

/-- Edits may be replaced behind others. -/
theorem Replaces.append_left (before : List Edit) (h : Replaces p xs ys) :
    Replaces p (before ++ xs) (before ++ ys) := by
  intro i j i' j' hleads
  obtain ⟨k, l, hfirst, hrest⟩ := leads_append.1 hleads
  exact leads_append.2 ⟨k, l, hfirst, h _ _ _ _ hrest⟩

/-- An insertion and a deletion behind it may change places. -/
theorem replaces_insert_delete (old new length o l n : Nat) (after : List Edit) :
    Replaces p (.insert old new length :: .delete o l n :: after)
      (.delete o l n :: .insert old new length :: after) :=
  fun _ _ _ _ ⟨hnew, hsize, hold, holdSize, hafter⟩ => ⟨hold, holdSize, hnew, hsize, hafter⟩

/-- A deletion and an insertion behind it may change places. -/
theorem replaces_delete_insert (old new length o l n : Nat) (after : List Edit) :
    Replaces p (.delete o l n :: .insert old new length :: after)
      (.insert old new length :: .delete o l n :: after) :=
  fun _ _ _ _ ⟨hold, holdSize, hnew, hsize, hafter⟩ => ⟨hnew, hsize, hold, holdSize, hafter⟩

/-- Two deletions in a row are one. -/
theorem replaces_delete (old length new o l n : Nat) (after : List Edit) :
    Replaces p (.delete old length new :: .delete o l n :: after)
      (.delete old (length + l) new :: after) := by
  rintro i j i' j' ⟨hold, -, -, hsize, hafter⟩
  rw [Nat.add_assoc] at hsize hafter
  exact ⟨hold, hsize, hafter⟩

/-- Two insertions in a row are one. -/
theorem replaces_insert (old new length o n l : Nat) (after : List Edit) :
    Replaces p (.insert old new length :: .insert o n l :: after)
      (.insert old new (length + l) :: after) := by
  rintro i j i' j' ⟨hnew, -, -, hsize, hafter⟩
  rw [Nat.add_assoc] at hsize hafter
  exact ⟨hnew, hsize, hafter⟩

/-- Two runs of equal lines in a row are one. -/
theorem replaces_equal (old new length o n l : Nat) (after : List Edit) :
    Replaces p (.equal old new length :: .equal o n l :: after)
      (.equal old new (length + l) :: after) := by
  rintro i j i' j' ⟨rfl, rfl, hfirst, rfl, rfl, hsecond, hafter⟩
  rw [Nat.add_assoc, Nat.add_assoc] at hafter
  exact ⟨rfl, rfl, same_add hfirst hsecond, hafter⟩

/-- A run without lines may be left out. -/
theorem replaces_empty (old new : Nat) (edits : List Edit) :
    Replaces p (.equal old new 0 :: edits) edits :=
  fun _ _ _ _ ⟨_, _, _, hedits⟩ => hedits

/-- An equal run may be left out if it is empty. -/
theorem replaces_shrunk (old new length : Nat) (edits : List Edit) :
    Replaces p (.equal old new length :: edits)
      (if (Edit.equal old new length).isEmpty then edits
        else .equal old new length :: edits) := by
  intro i j i' j' h
  split
  · next hempty =>
    have hspan : old + length ≤ old := of_decide_eq_true (Bool.and_eq_true_iff.1 hempty).1
    obtain rfl : length = 0 := by omega
    exact replaces_empty old new edits i j i' j' h
  · exact h

namespace Cursor

/-- The edits around a place. -/
def edits (c : Cursor) : List Edit := c.before.reverse ++ c.rest

/-- It does not matter on which side of the cursor an edit stands. -/
theorem edits_cons (edit : Edit) (before rest : List Edit) :
    (Cursor.mk (edit :: before) rest).edits = (Cursor.mk before (edit :: rest)).edits := by
  simp [edits]

/-- Equal entries after an insertion join those that follow. -/
theorem leads_giveBack {n : Nat} {previous moved : Edit} {after : List Edit}
    (hsame : ∀ t < n, p.same (i + t) (j + t) = true) (hold : previous.oldSpan.stop = i + n)
    (hnew : moved.newSpan.stop = j + n) (hafter : Leads p (i + n) (j + n) after i' j') :
    Leads p i j (giveBack n previous moved after) i' j' := by
  unfold giveBack
  split
  · obtain ⟨rfl, rfl, hmore, hrest⟩ := hafter
    rw [Nat.add_sub_cancel, Nat.add_sub_cancel, Nat.add_comm _ n]
    refine ⟨rfl, rfl, same_add hsame hmore, ?_⟩
    rwa [← Nat.add_assoc, ← Nat.add_assoc]
  · rw [hold, hnew, Nat.add_sub_cancel, Nat.add_sub_cancel]
    exact ⟨rfl, rfl, hsame, hafter⟩

/-- An insertion slides up over equal entries that end like it. -/
theorem replaces_slideUp (o n run old new length : Nat) (after : List Edit) {shared : Nat}
    (hshared : shared = p.commonSuffix ⟨o, o + run⟩ ⟨new, new + length⟩) :
    Replaces p (.equal o n run :: .insert old new length :: after)
      (.equal o n (run - shared) :: .insert (old - shared) (new - shared) length ::
        giveBack shared (.equal o n run) (.insert old new length) after) := by
  rintro i j i' j' ⟨rfl, rfl, hsame, rfl, hsize, hafter⟩
  obtain ⟨hrun, -⟩ := p.commonSuffix_le ⟨o, o + run⟩ ⟨n + run, n + run + length⟩
  rw [← hshared, Span.length] at hrun
  simp only at hrun
  have hequal : ∀ t < shared, p.same (o + (run - shared) + t)
      (n + (run - shared) + length + t) = true := by
    intro t ht
    have := p.same_of_lt_commonSuffix ⟨o, o + run⟩ ⟨n + run, n + run + length⟩ (hshared ▸ ht)
    rw [← hshared] at this
    convert this using 2
    · simp only
      omega
    · simp only
      omega
  refine ⟨rfl, rfl, fun t ht => hsame t (by omega), by omega, by omega, ?_⟩
  refine leads_giveBack hequal ?_ ?_ ?_
  · simp only [Edit.oldSpan]
    omega
  · simp only [Edit.newSpan]
    omega
  · convert hafter using 1 <;> omega

/-- Equal entries before an insertion join those that are there. -/
theorem leads_takeOver {n k l : Nat} {next moved : Edit} {before rest : List Edit}
    (hsame : ∀ t < n, p.same (k + t) (l + t) = true) (hold : next.oldSpan.start = k)
    (hnew : moved.newSpan.start = l) (hbefore : Leads p i j before.reverse k l)
    (hrest : Leads p (k + n) (l + n) rest i' j') :
    Leads p i j (Cursor.mk (takeOver n next moved before) rest).edits i' j' := by
  unfold takeOver
  split
  · next old new length others =>
    rw [List.reverse_cons] at hbefore
    obtain ⟨_, _, hothers, rfl, rfl, hrun, rfl, rfl⟩ := leads_append.1 hbefore
    rw [edits_cons]
    refine leads_append.2 ⟨_, _, hothers, rfl, rfl, same_add hrun hsame, ?_⟩
    rwa [← Nat.add_assoc, ← Nat.add_assoc]
  · rw [hold, hnew, edits_cons]
    exact leads_append.2 ⟨k, l, hbefore, rfl, rfl, hsame, hrest⟩

/-- An insertion slides down over equal entries that begin like it. -/
theorem leads_slideDown {o n run old new length shared : Nat} {before after : List Edit}
    (hshared : shared = p.commonPrefix ⟨o, o + run⟩ ⟨new, new + length⟩) (hpos : 0 < shared)
    (h : Leads p i j
      (Cursor.mk before (.insert old new length :: .equal o n run :: after)).edits i' j') :
    Leads p i j (Cursor.mk (takeOver shared (.equal o n run) (.insert old new length) before)
      (.insert (old + shared) (new + shared) length ::
        .equal (o + shared) (n + shared) (run - shared) :: after)).edits i' j' := by
  obtain ⟨k, l, hbefore, rfl, hsize, rfl, rfl, hsame, hafter⟩ := leads_append.1 h
  obtain ⟨hrun, -⟩ := p.commonPrefix_le ⟨o, o + run⟩ ⟨new, new + length⟩
  rw [← hshared, Span.length] at hrun
  simp only at hrun
  have hequal : ∀ t < shared, p.same (o + t) (new + t) = true := fun t ht =>
    p.same_of_lt_commonPrefix ⟨o, o + run⟩ ⟨new, new + length⟩ (hshared ▸ ht)
  refine leads_takeOver hequal rfl rfl hbefore ⟨rfl, ?_, rfl, ?_, fun t ht => ?_, ?_⟩
  · have hlast := (Pair.same_lt (hsame (shared - 1) (by omega))).2
    omega
  · omega
  · convert hsame (shared + t) (by omega) using 2 <;> omega
  · convert hafter using 1 <;> omega

/-- What follows a place may be replaced. -/
theorem leads_of_replaces {before rest rest' : List Edit} (hreplaces : Replaces p rest rest')
    (h : Leads p i j (Cursor.mk before rest).edits i' j') :
    Leads p i j (Cursor.mk before rest').edits i' j' :=
  hreplaces.append_left before.reverse _ _ _ _ h

/-- An equal run before a place may be left out if it is empty. -/
theorem leads_shrunk_before {old new length : Nat} {before rest : List Edit}
    (h : Leads p i j (Cursor.mk before (.equal old new length :: rest)).edits i' j') :
    Leads p i j (Cursor.mk (if (Edit.equal old new length).isEmpty then before
      else .equal old new length :: before) rest).edits i' j' := by
  have hshrunk := leads_of_replaces (replaces_shrunk old new length rest) h
  split
  · next hempty => rwa [if_pos hempty] at hshrunk
  · next hempty => rwa [if_neg hempty, ← edits_cons] at hshrunk

/-- An equal run after an edit may be left out if it is empty. -/
theorem leads_shrunk_after {old new length : Nat} {edit : Edit} {before after : List Edit}
    (h : Leads p i j (Cursor.mk before (edit :: .equal old new length :: after)).edits i' j') :
    Leads p i j (Cursor.mk before (edit :: if (Edit.equal old new length).isEmpty then after
      else .equal old new length :: after)).edits i' j' :=
  leads_of_replaces ((replaces_shrunk old new length after).append_left [edit]) h

/-- The edits around a cursor whose neighbours are known. -/
theorem edits_eq {c : Cursor} {previous this : Edit} {before after : List Edit}
    (hbefore : c.before = previous :: before) (hrest : c.rest = this :: after) :
    c.edits = (Cursor.mk before (previous :: this :: after)).edits := by
  rw [← edits_cons, edits, edits, hbefore, hrest]

/-- Moving an edit up changes nothing about where edits lead. -/
theorem leads_up (size : Nat) {c : Cursor} (h : Leads p i j c.edits i' j') :
    Leads p i j (up p size c).edits i' j' := by
  fun_induction up p size c with
  | case1 => exact h
  | case2 _ _ before after old new length o n run hbefore hrest shared hpos shrunk before' ih =>
    rw [edits_eq hbefore hrest] at h
    rw [if_pos hpos]
    exact ih (leads_shrunk_before
      (leads_of_replaces (replaces_slideUp o n run old new length after rfl) h))
  | case3 _ _ before after old new length o n hrest hbefore shared hnone ih =>
    rw [edits_eq hbefore hrest] at h
    rw [if_neg hnone, if_pos rfl]
    exact ih (leads_of_replaces (replaces_empty o n _) h)
  | case4 _ _ before after old new length o n run hrun hbefore hrest shared hnone =>
    rw [if_neg hnone, if_neg hrun]
    exact h
  | case5 _ _ before after old length new o n hrest hbefore ih =>
    rw [edits_eq hbefore hrest] at h
    exact ih (leads_of_replaces (replaces_empty o n _) h)
  | case6 => exact h
  | case7 _ _ before after old new length o l n hbefore hrest ih =>
    rw [edits_eq hbefore hrest] at h
    exact ih (leads_of_replaces (replaces_delete_insert old new length o l n after) h)
  | case8 _ _ before after old length new o n l hbefore hrest ih =>
    rw [edits_eq hbefore hrest] at h
    exact ih (leads_of_replaces (replaces_insert_delete o n l old length new after) h)
  | case9 _ _ before after old new length o n l hbefore hrest ih =>
    rw [edits_eq hbefore hrest] at h
    exact ih (leads_of_replaces (replaces_insert o n l old new length after) h)
  | case10 _ _ before after old length new o l n hbefore hrest ih =>
    rw [edits_eq hbefore hrest] at h
    exact ih (leads_of_replaces (replaces_delete o l n old length new after) h)
  | case11 => exact h
  | case12 => exact h

/-- The edits around a cursor whose rest is known. -/
theorem edits_eq_of_rest {c : Cursor} {rest : List Edit} (hrest : c.rest = rest) :
    c.edits = (Cursor.mk c.before rest).edits := by
  rw [edits, edits, hrest]

/-- Moving an edit down changes nothing about where edits lead. -/
theorem leads_down (size : Nat) {c : Cursor} (h : Leads p i j c.edits i' j') :
    Leads p i j (down p size c).edits i' j' := by
  fun_induction down p size c with
  | case1 => exact h
  | case2 _ c after old new length o n run hrest shared hpos shrunk after' ih =>
    rw [edits_eq_of_rest hrest] at h
    rw [if_pos hpos]
    exact ih (leads_shrunk_after (leads_slideDown rfl hpos h))
  | case3 _ c after old new length o n hrest shared hnone ih =>
    rw [edits_eq_of_rest hrest] at h
    rw [if_neg hnone, if_pos rfl]
    exact ih (leads_of_replaces ((replaces_empty o n after).append_left [_]) h)
  | case4 _ c after old new length o n run hrun hrest shared hnone =>
    rw [if_neg hnone, if_neg hrun]
    exact h
  | case5 _ c after old length new o n hrest ih =>
    rw [edits_eq_of_rest hrest] at h
    exact ih (leads_of_replaces ((replaces_empty o n after).append_left [_]) h)
  | case6 => exact h
  | case7 _ c after old new length o l n hrest ih =>
    rw [edits_eq_of_rest hrest] at h
    rw [edits_cons] at ih
    exact ih (leads_of_replaces (replaces_insert_delete old new length o l n after) h)
  | case8 _ c after old length new o n l hrest ih =>
    rw [edits_eq_of_rest hrest] at h
    rw [edits_cons] at ih
    exact ih (leads_of_replaces (replaces_delete_insert o n l old length new after) h)
  | case9 _ c after old new length o n l hrest ih =>
    rw [edits_eq_of_rest hrest] at h
    exact ih (leads_of_replaces (replaces_insert old new length o n l after) h)
  | case10 _ c after old length new o l n hrest ih =>
    rw [edits_eq_of_rest hrest] at h
    exact ih (leads_of_replaces (replaces_delete old length new o l n after) h)
  | case11 => exact h
  | case12 => exact h

end Cursor

/-- Moving every edit of a kind changes nothing about where edits lead. -/
theorem leads_slide {moves : Edit → Bool} {size fuel : Nat} {c : Cursor}
    (h : Leads p i j c.edits i' j') : Leads p i j (slide p moves size fuel c) i' j' := by
  induction fuel generalizing c with
  | zero => exact h
  | succ fuel ih =>
    unfold slide
    split
    · next hnone => rwa [Cursor.edits, hnone, List.append_nil] at h
    · next this after hrest =>
      split
      · have hmoved := Cursor.leads_down size (Cursor.leads_up size h)
        dsimp only
        split
        · next hnone => rwa [Cursor.edits, hnone, List.append_nil] at hmoved
        · next hnext =>
          rw [Cursor.edits_eq_of_rest hnext, ← Cursor.edits_cons] at hmoved
          exact ih hmoved
      · rw [Cursor.edits_eq_of_rest hrest, ← Cursor.edits_cons] at h
        exact ih h

/-- Moved and joined edits lead where they led before. -/
theorem leads_compact {edits : List Edit} (h : Leads p i j edits i' j') :
    Leads p i j (compact p edits) i' j' :=
  leads_slide (leads_slide (c := ⟨[], edits⟩) h)

end EditScript

end ViewSchema
