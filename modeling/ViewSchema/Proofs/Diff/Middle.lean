import ViewSchema.Proofs.Diff.Frontier

/-!
# The middle of a path

The search for the middle of a path sweeps over the diagonals of growing distances, from both ends.
A sweep advances the frontier on every diagonal, or stops at the first one where it meets the other
frontier.  What is compared differs at both ends, so a middle that is found is within the spans and
none of their two common corners.

Main results:

- Theorem `Frontier.foldl_visit`: a sweep advances every diagonal, or stops at one.
- Theorem `Search.Ready.round`: a round of sweeps finds a middle, or is followed by another.
- Theorem `interior_middle?`: a middle divides the spans.
-/

namespace ViewSchema

namespace EditScript

/-! ## Equal runs -/

namespace Pair

variable (p : Pair)

/-- A run is no longer than it may be. -/
theorem prefixFrom_le (limit : Nat) : ∀ i j, p.prefixFrom i j limit ≤ limit := by
  induction limit with
  | zero => exact fun _ _ => Nat.le_refl 0
  | succ limit ih =>
    intro i j
    unfold prefixFrom
    split
    · exact Nat.succ_le_succ (ih _ _)
    · exact Nat.zero_le _

/-- Lines within a run are the same. -/
theorem same_of_lt_prefixFrom {limit : Nat} :
    ∀ {i j t : Nat}, t < p.prefixFrom i j limit → p.same (i + t) (j + t) = true := by
  induction limit with
  | zero => exact fun h => absurd h (Nat.not_lt_zero _)
  | succ limit ih =>
    intro i j t h
    unfold prefixFrom at h
    split at h
    · next hsame =>
      cases t with
      | zero => exact hsame
      | succ t =>
        have := ih (Nat.lt_of_succ_lt_succ h)
        rwa [Nat.succ_add_eq_add_succ, Nat.succ_add_eq_add_succ] at this
    · exact absurd h (Nat.not_lt_zero _)

/-- A run that is shorter than it may be ends at a difference. -/
theorem not_same_prefixFrom {limit : Nat} : ∀ {i j : Nat}, p.prefixFrom i j limit < limit →
    p.same (i + p.prefixFrom i j limit) (j + p.prefixFrom i j limit) = false := by
  induction limit with
  | zero => exact fun h => absurd h (Nat.not_lt_zero _)
  | succ limit ih =>
    intro i j h
    unfold prefixFrom at h ⊢
    split
    · next hsame =>
      rw [if_pos hsame] at h
      have := ih (Nat.lt_of_succ_lt_succ h)
      rwa [Nat.succ_add_eq_add_succ, Nat.succ_add_eq_add_succ] at this
    · next hsame => simpa using hsame

/-- No run begins at a difference. -/
theorem prefixFrom_eq_zero {i j : Nat} (h : p.same i j = false) (limit : Nat) :
    p.prefixFrom i j limit = 0 := by
  cases limit with
  | zero => rfl
  | succ limit => rw [prefixFrom, h, if_neg Bool.false_ne_true]

/-- A run backwards is no longer than it may be, and does not pass the front of either side. -/
theorem suffixBefore_le (limit : Nat) : ∀ i j, p.suffixBefore i j limit ≤ limit ∧
    p.suffixBefore i j limit ≤ i ∧ p.suffixBefore i j limit ≤ j := by
  induction limit with
  | zero => exact fun i j => ⟨Nat.le_refl 0, Nat.zero_le i, Nat.zero_le j⟩
  | succ limit ih =>
    intro i j
    unfold suffixBefore
    split
    · next h =>
      simp only [Bool.and_eq_true, decide_eq_true_eq] at h
      have := ih (i - 1) (j - 1)
      omega
    · omega

/-- Lines within a run backwards are the same. -/
theorem same_of_lt_suffixBefore {limit : Nat} : ∀ {i j t : Nat}, t < p.suffixBefore i j limit →
    p.same (i - p.suffixBefore i j limit + t) (j - p.suffixBefore i j limit + t) = true := by
  induction limit with
  | zero => exact fun h => absurd h (Nat.not_lt_zero _)
  | succ limit ih =>
    intro i j t h
    unfold suffixBefore at h ⊢
    split at h
    · next hsame =>
      simp only [hsame, if_true]
      simp only [Bool.and_eq_true, decide_eq_true_eq] at hsame
      obtain ⟨⟨hi, hj⟩, hlast⟩ := hsame
      have hle := p.suffixBefore_le limit (i - 1) (j - 1)
      have hfront : ∀ k, k - (p.suffixBefore (i - 1) (j - 1) limit + 1) =
          k - 1 - p.suffixBefore (i - 1) (j - 1) limit := fun k => by omega
      rw [hfront, hfront]
      obtain hlt | heq := Nat.lt_or_eq_of_le (Nat.le_of_lt_succ h)
      · exact ih hlt
      · rwa [heq, Nat.sub_add_cancel hle.2.1, Nat.sub_add_cancel hle.2.2]
    · exact absurd h (Nat.not_lt_zero _)

/-- A run that is shorter than it may be begins after a difference. -/
theorem not_same_suffixBefore {limit : Nat} : ∀ {i j : Nat}, p.suffixBefore i j limit < limit →
    p.suffixBefore i j limit < i → p.suffixBefore i j limit < j →
    p.same (i - p.suffixBefore i j limit - 1) (j - p.suffixBefore i j limit - 1) = false := by
  induction limit with
  | zero => exact fun h => absurd h (Nat.not_lt_zero _)
  | succ limit ih =>
    intro i j h hi hj
    unfold suffixBefore at h hi hj ⊢
    split
    · next hsame =>
      simp only [hsame, if_true] at h hi hj
      have := ih (i := i - 1) (j := j - 1) (by omega) (by omega) (by omega)
      rwa [Nat.sub_right_comm i 1, Nat.sub_right_comm j 1] at this
    · next hsame =>
      simp only [hsame, if_false, Bool.false_eq_true] at hi hj
      simpa [hi, hj] using hsame

/-- No run ends behind a difference. -/
theorem suffixBefore_eq_zero {i j : Nat} (h : p.same (i - 1) (j - 1) = false) (limit : Nat) :
    p.suffixBefore i j limit = 0 := by
  cases limit with
  | zero => rfl
  | succ limit => rw [suffixBefore, h, Bool.and_false, if_neg Bool.false_ne_true]

/-- What two spans have in common at the front lies in both. -/
theorem commonPrefix_le (old new : Span) :
    p.commonPrefix old new ≤ old.length ∧ p.commonPrefix old new ≤ new.length :=
  Nat.le_min.1 (p.prefixFrom_le _ _ _)

/-- What two spans have in common at the end lies in both. -/
theorem commonSuffix_le (old new : Span) :
    p.commonSuffix old new ≤ old.length ∧ p.commonSuffix old new ≤ new.length :=
  Nat.le_min.1 (p.suffixBefore_le _ _ _).1

/-- The lines in common at the front are the same. -/
theorem same_of_lt_commonPrefix (old new : Span) {t : Nat} (ht : t < p.commonPrefix old new) :
    p.same (old.start + t) (new.start + t) = true :=
  p.same_of_lt_prefixFrom ht

/-- The lines in common at the end are the same. -/
theorem same_of_lt_commonSuffix (old new : Span) {t : Nat} (ht : t < p.commonSuffix old new) :
    p.same (old.stop - p.commonSuffix old new + t) (new.stop - p.commonSuffix old new + t) =
      true :=
  p.same_of_lt_suffixBefore ht

/-- Behind what is in common at the front stands a difference, unless one of the spans ends
there. -/
theorem not_same_commonPrefix (old new : Span) (hold : p.commonPrefix old new < old.length)
    (hnew : p.commonPrefix old new < new.length) :
    p.same (old.start + p.commonPrefix old new) (new.start + p.commonPrefix old new) = false :=
  p.not_same_prefixFrom (Nat.lt_min.2 ⟨hold, hnew⟩)

/-- In front of what is in common at the end stands a difference, unless one of the spans begins
there. -/
theorem not_same_commonSuffix (old new : Span) (hold : p.commonSuffix old new < old.length)
    (hnew : p.commonSuffix old new < new.length) :
    p.same (old.stop - p.commonSuffix old new - 1) (new.stop - p.commonSuffix old new - 1) =
      false :=
  p.not_same_suffixBefore (Nat.lt_min.2 ⟨hold, hnew⟩) (Nat.lt_of_lt_of_le hold (Nat.sub_le _ _))
    (Nat.lt_of_lt_of_le hnew (Nat.sub_le _ _))

end Pair

/-! ## Sweeps -/

namespace Frontier

variable {f g other : Frontier} {n m d c limit x : Nat} {k l : Int}

/-- A frontier with room for the diagonals of a distance and their neighbours. -/
structure Fits (f : Frontier) (limit : Nat) : Prop where
  offset : f.offset = limit + 1
  size : f.reached.size = 2 * limit + 3

/-- A new frontier has room for every diagonal within the limit. -/
theorem fits_start (limit : Nat) : (start limit).Fits limit :=
  ⟨rfl, Array.size_replicate⟩

/-- A new frontier has reached nothing. -/
theorem get_start (limit : Nat) (k : Int) : (start limit).get k = 0 := by
  unfold get start
  rw [Array.getD_eq_getD_getElem?, Array.getElem?_replicate]
  split <;> rfl

/-- Setting a diagonal leaves the room as it is. -/
theorem Fits.set (h : f.Fits limit) (k : Int) (x : Nat) : (f.set k x).Fits limit :=
  ⟨h.offset, by rw [Frontier.set, Array.size_setIfInBounds, h.size]⟩

/-- What is set on a diagonal is found there. -/
theorem Fits.get_set_self (h : f.Fits limit) (hk : k.natAbs ≤ limit + 1) :
    (f.set k x).get k = x := by
  unfold Frontier.set get
  rw [Array.getD_eq_getD_getElem?, Array.getElem?_setIfInBounds_self_of_lt, Option.getD_some]
  rw [h.offset, h.size]
  omega

/-- Setting one diagonal leaves the others alone. -/
theorem Fits.get_set_of_ne (h : f.Fits limit) (hk : k.natAbs ≤ limit + 1)
    (hl : l.natAbs ≤ limit + 1) (hne : l ≠ k) : (f.set k x).get l = f.get l := by
  unfold Frontier.set get
  rw [Array.getD_eq_getD_getElem?, Array.getElem?_setIfInBounds_ne, Array.getD_eq_getD_getElem?]
  rw [h.offset]
  omega

/-- Advance a frontier on a diagonal, unless the search is over: equal entries follow the edit, and
where it meets the other frontier the search ends. -/
def visit (d : Int) (run : Int → Nat → Nat) (meet : Int → Nat → Option (Nat × Nat))
    (r : Frontier × Option (Nat × Nat)) (k : Int) : Frontier × Option (Nat × Nat) :=
  if r.2.isSome then r
  else
    let x := r.1.advance d k
    (r.1.set k (x + run k x), meet k x)

variable {run : Int → Nat → Nat} {meet : Int → Nat → Option (Nat × Nat)} {ks : List Int}
  {point : Nat × Nat}

/-- Once a point is found, a sweep changes nothing any more. -/
theorem foldl_visit_of_found (f : Frontier) (ks : List Int) :
    ks.foldl (visit d run meet) (f, some point) = (f, some point) := by
  induction ks with
  | nil => rfl
  | cons k ks ih => exact ih

/-- A diagonal does not matter for the others of the same distance. -/
theorem Fits.advance_set (h : f.Fits limit) (hd : d ≤ limit) (hk : k ∈ diagonals d)
    (hl : l ∈ diagonals d) : (f.set k x).advance d l = f.advance d l := by
  rw [mem_diagonals] at hk hl
  have habove : (f.set k x).get (l + 1) = f.get (l + 1) :=
    h.get_set_of_ne (by omega) (by omega) (by omega)
  have hbelow : (f.set k x).get (l - 1) = f.get (l - 1) :=
    h.get_set_of_ne (by omega) (by omega) (by omega)
  unfold advance
  rw [habove, hbelow]

/-- A sweep over diagonals advances every one, or stops at one. -/
theorem foldl_visit (run : Int → Nat → Nat) (meet : Int → Nat → Option (Nat × Nat))
    (hd : d ≤ limit) (hnodup : ks.Nodup) (hks : ∀ k ∈ ks, k ∈ diagonals d) (hf : f.Fits limit) :
    (∃ k ∈ ks, ∃ point, meet k (f.advance d k) = some point ∧
      (ks.foldl (visit d run meet) (f, none)).2 = some point) ∨
    ((ks.foldl (visit d run meet) (f, none)).2 = none ∧
      (ks.foldl (visit d run meet) (f, none)).1.Fits limit ∧
      (∀ k ∈ ks, meet k (f.advance d k) = none ∧
        (ks.foldl (visit d run meet) (f, none)).1.get k =
          f.advance d k + run k (f.advance d k)) ∧
      ∀ l ∈ diagonals d, l ∉ ks →
        (ks.foldl (visit d run meet) (f, none)).1.get l = f.get l) := by
  induction ks generalizing f with
  | nil => exact .inr ⟨rfl, hf, by simp, fun _ _ _ => rfl⟩
  | cons k ks ih =>
    obtain ⟨hnot, hnodup⟩ := List.nodup_cons.1 hnodup
    obtain ⟨hk, hks⟩ := List.forall_mem_cons.1 hks
    have hnear : k.natAbs ≤ limit + 1 := by
      rw [mem_diagonals] at hk
      omega
    have hstep : (k :: ks).foldl (visit d run meet) (f, none) = ks.foldl (visit d run meet)
        (f.set k (f.advance d k + run k (f.advance d k)), meet k (f.advance d k)) := rfl
    cases hmeet : meet k (f.advance d k) with
    | some point =>
      rw [hstep, hmeet, foldl_visit_of_found]
      exact .inl ⟨k, List.mem_cons_self, point, hmeet, rfl⟩
    | none =>
      -- Diagonals of one distance are two apart, and each looks at its neighbours only.
      rw [hstep, hmeet]
      have hsame : ∀ l ∈ ks, (f.set k (f.advance d k + run k (f.advance d k))).advance d l =
          f.advance d l := fun l hl => hf.advance_set hd hk (hks l hl)
      obtain ⟨l, hl, point, hfound, heq⟩ | ⟨hnone, hfits, hall, hothers⟩ :=
        ih hnodup hks (hf.set k _)
      · rw [hsame l hl] at hfound
        exact .inl ⟨l, List.mem_cons_of_mem _ hl, point, hfound, heq⟩
      · refine .inr ⟨hnone, hfits, List.forall_mem_cons.2 ⟨⟨hmeet, ?_⟩, fun l hl => ?_⟩,
          fun l hl hnotIn => ?_⟩
        · rw [hothers k hk hnot, hf.get_set_self hnear]
        · obtain ⟨hfound, hget⟩ := hall l hl
          rw [hsame l hl] at hfound hget
          exact ⟨hfound, hget⟩
        · have hfar : l.natAbs ≤ limit + 1 := by
            rw [mem_diagonals] at hl
            omega
          rw [hothers l hl (List.not_mem_of_not_mem_cons hnotIn),
            hf.get_set_of_ne hnear hfar (List.ne_of_not_mem_cons hnotIn)]

/-- A frontier meets the other one, where these have the same parity; `c` is one if the other has
one edit less. -/
def Meets (other : Frontier) (n m d c : Nat) (k : Int) (x : Nat) : Prop :=
  ((n : Int) - m + c) % 2 = 0 ∧ ((k - (n - m)).natAbs : Int) ≤ d - c ∧
    n ≤ x + other.get (-(k - (n - m)))

instance : Decidable (Meets other n m d c k x) := by
  unfold Meets
  infer_instance

/-- Where the search ends on a diagonal, if it does. -/
def meetAt (other : Frontier) (n m d c : Nat) (run : Int → Nat → Nat)
    (place : Int → Nat → Nat × Nat) (k : Int) (x : Nat) : Option (Nat × Nat) :=
  if other.Meets n m d c k (x + run k x) then some (place k x) else none

/-- Where a frontier does not meet the other one, it is within the grid. -/
theorem Sound.inside_of_not_meets {e : Nat} (hother : other.Sound n m e) (he : d = e + c)
    (hparity : ((n : Int) - m + c) % 2 = 0)
    (h : ∀ k ∈ diagonals d, ¬ Meets other n m d c k (f.get k)) : f.Inside n m d c := by
  intro k hk hnear
  have hmem : -(k - (n - m)) ∈ diagonals e := by
    rw [mem_diagonals] at hk ⊢
    omega
  have hle := hother.diagonal_le _ hmem
  have hapart : ¬ n ≤ f.get k + other.get (-(k - (n - m))) :=
    fun hmeet => h k hk ⟨hparity, hnear, hmeet⟩
  omega

/-- Equal entries after an edit stay within the grid. -/
def Bounded (run : Int → Nat → Nat) (n m : Nat) : Prop :=
  ∀ k x, run k x = 0 ∨ x + run k x ≤ n ∧ x + run k x ≤ m + k

/-- A sweep of one more edit keeps a frontier as it has to be, or stops at a diagonal that it
reaches within the grid. -/
theorem Sound.sweep {e : Nat} (place : Int → Nat → Nat × Nat) (h : f.Sound n m d)
    (hfits : f.Fits limit) (hd : d + 1 ≤ limit) (hn : 0 < n) (hm : 0 < m)
    (hin : ((n : Int) - m + c) % 2 = 0 → f.Inside n m d c) (hc : c ≤ 1)
    (hother : other.Sound n m e) (he : d + 1 = e + c) (hrun : Bounded run n m) :
    (∃ k ∈ diagonals (d + 1),
      ((diagonals (d + 1)).foldl
          (visit (d + 1 : Nat) run (other.meetAt n m (d + 1) c run place)) (f, none)).2 =
        some (place k (f.advance (d + 1 : Nat) k)) ∧
      f.advance (d + 1 : Nat) k ≤ n ∧ f.advance (d + 1 : Nat) k ≤ m + k ∧
        2 * f.advance (d + 1 : Nat) k < n + m + k) ∨
    ∃ g, (diagonals (d + 1)).foldl
        (visit (d + 1 : Nat) run (other.meetAt n m (d + 1) c run place)) (f, none) = (g, none) ∧
      g.Fits limit ∧ g.Sound n m (d + 1) ∧
      (((n : Int) - m + c) % 2 = 0 → g.Inside n m (d + 1) c) := by
  obtain ⟨k, hk, point, hfound, heq⟩ | ⟨hnone, hfits, hall, -⟩ :=
    foldl_visit run (other.meetAt n m (d + 1) c run place) hd
      (nodup_diagonals (d + 1)) (fun _ hk => hk) hfits
  · left
    unfold meetAt at hfound
    split at hfound
    · next hmeets =>
      cases hfound
      exact ⟨k, hk, heq, h.advance_inside (hin hmeets.1) hc hmeets.1 hn hm hk hmeets.2.1⟩
    · cases hfound
  · right
    refine ⟨_, Prod.ext rfl hnone, hfits, h.next fun k hk => ⟨_, (hall k hk).2, hrun k _⟩,
      fun hparity => hother.inside_of_not_meets he hparity fun k hk hmeets => ?_⟩
    obtain ⟨hfound, hget⟩ := hall k hk
    rw [hget] at hmeets
    rw [meetAt, if_pos hmeets] at hfound
    cases hfound

/-- The sweep without edits reaches nothing. -/
theorem sweep_zero (run : Int → Nat → Nat) (meet : Int → Nat → Option (Nat × Nat))
    (hfits : f.Fits limit) (hone : f.get 1 = 0) (hrun : run 0 0 = 0) (hmeet : meet 0 0 = none) :
    ∃ g, (diagonals 0).foldl (visit (0 : Nat) run meet) (f, none) = (g, none) ∧
      g.Fits limit ∧ g.get 0 = 0 := by
  have hadvance : f.advance (0 : Nat) 0 = 0 := hone
  refine ⟨f.set 0 0, ?_, hfits.set 0 0, hfits.get_set_self (by omega)⟩
  show visit (0 : Nat) run meet (f, none) 0 = _
  simp only [visit, Option.isSome_none, Bool.false_eq_true, if_false, hadvance, hrun, hmeet]

end Frontier

/-! ## The search -/

variable {p : Pair} {old new : Span} {limit d : Nat} {s : Search}

/-- Equal entries after a position, by its diagonal. -/
def forwardRun (p : Pair) (old new : Span) (k : Int) (x : Nat) : Nat :=
  let y := ((x : Int) - k).toNat
  if x < old.length ∧ y < new.length then
    p.commonPrefix ⟨old.start + x, old.stop⟩ ⟨new.start + y, new.stop⟩
  else 0

/-- Equal entries before a position from the end, by its diagonal. -/
def backwardRun (p : Pair) (old new : Span) (k : Int) (x : Nat) : Nat :=
  let y := ((x : Int) - k).toNat
  if x < old.length ∧ y < new.length then
    p.commonSuffix ⟨old.start, old.stop - x⟩ ⟨new.start, new.stop - y⟩
  else 0

/-- The middle before equal entries, where the search from the start stops. -/
def forwardPlace (old new : Span) (k : Int) (x : Nat) : Nat × Nat :=
  (x + old.start, ((x : Int) - k).toNat + new.start)

/-- The middle before equal entries, where the search from the end stops. -/
def backwardPlace (p : Pair) (old new : Span) (k : Int) (x : Nat) : Nat × Nat :=
  let run := backwardRun p old new k x
  (old.length - (x + run) + old.start, new.length - (((x : Int) - k).toNat + run) + new.start)

/-- Runs forward from a place stay within both spans. -/
theorem bounded_forwardRun (p : Pair) (old new : Span) :
    Frontier.Bounded (forwardRun p old new) old.length new.length := by
  intro k x
  unfold forwardRun
  dsimp only
  split
  · next h =>
    obtain ⟨hold, hnew⟩ := p.commonPrefix_le ⟨old.start + x, old.stop⟩
      ⟨new.start + ((x : Int) - k).toNat, new.stop⟩
    simp only [Span.length] at h hold hnew ⊢
    omega
  · exact .inl rfl

/-- Runs backward from a place stay within both spans. -/
theorem bounded_backwardRun (p : Pair) (old new : Span) :
    Frontier.Bounded (backwardRun p old new) old.length new.length := by
  intro k x
  unfold backwardRun
  dsimp only
  split
  · next h =>
    obtain ⟨hold, hnew⟩ := p.commonSuffix_le ⟨old.start, old.stop - x⟩
      ⟨new.start, new.stop - ((x : Int) - k).toNat⟩
    simp only [Span.length] at h hold hnew ⊢
    omega
  · exact .inl rfl

/-- Equal entries before a position do not lead to the common start of spans that differ there. -/
theorem backwardRun_before_corner (hfirst : p.same old.start new.start = false) {k : Int} {x : Nat}
    (hrun : 0 < backwardRun p old new k x) :
    x + backwardRun p old new k x < old.length ∨
      ((x : Int) - k).toNat + backwardRun p old new k x < new.length := by
  unfold backwardRun at hrun ⊢
  dsimp only at hrun ⊢
  split at hrun
  · next h =>
    rw [if_pos h]
    by_contra hcorner
    obtain ⟨hold, hnew⟩ := p.commonSuffix_le ⟨old.start, old.stop - x⟩
      ⟨new.start, new.stop - ((x : Int) - k).toNat⟩
    have hsame := p.same_of_lt_suffixBefore hrun
    have hi : old.stop - x - p.commonSuffix ⟨old.start, old.stop - x⟩
        ⟨new.start, new.stop - ((x : Int) - k).toNat⟩ = old.start := by
      simp only [Span.length] at h hold hnew hcorner
      omega
    have hj : new.stop - ((x : Int) - k).toNat - p.commonSuffix ⟨old.start, old.stop - x⟩
        ⟨new.start, new.stop - ((x : Int) - k).toNat⟩ = new.start := by
      simp only [Span.length] at h hold hnew hcorner
      omega
    unfold Pair.commonSuffix at hi hj
    rw [hi, hj, Nat.add_zero, Nat.add_zero, hfirst] at hsame
    cases hsame
  · cases hrun

/-- The sweep from the start. -/
def Search.sweepForward (p : Pair) (old new : Span) (d : Nat) (ks : List Int) (s : Search) :
    Frontier × Option (Nat × Nat) :=
  ks.foldl (Frontier.visit d (forwardRun p old new) (s.backward.meetAt old.length new.length d 1
    (forwardRun p old new) (forwardPlace old new))) (s.forward, s.found)

/-- The sweep from the end. -/
def Search.sweepBackward (p : Pair) (old new : Span) (d : Nat) (ks : List Int) (s : Search) :
    Frontier × Option (Nat × Nat) :=
  ks.foldl (Frontier.visit d (backwardRun p old new) (s.forward.meetAt old.length new.length d 0
    (backwardRun p old new) (backwardPlace p old new))) (s.backward, s.found)

/-- A step forward is a sweep over one diagonal, and leaves the other frontier alone. -/
theorem Search.stepForward_eq (s : Search) (k : Int) :
    stepForward p old new d s k =
      ⟨(sweepForward p old new d [k] s).1, s.backward, (sweepForward p old new d [k] s).2⟩ := by
  obtain ⟨forward, backward, found⟩ := s
  cases found with
  | some point => rfl
  | none =>
    have hx : ∀ x : Nat, (if x < old.length ∧ ((x : Int) - k).toNat < new.length then
          x + p.commonPrefix ⟨old.start + x, old.stop⟩
            ⟨new.start + ((x : Int) - k).toNat, new.stop⟩
        else x) = x + forwardRun p old new k x := fun x => by
      unfold forwardRun
      dsimp only
      split <;> rfl
    have hodd : ((old.length : Int) - new.length) % 2 ≠ 0 ↔
        ((old.length : Int) - new.length + (1 : Nat)) % 2 = 0 := by omega
    simp only [stepForward, sweepForward, List.foldl_cons, List.foldl_nil, Frontier.visit,
      Option.isSome_none, Bool.false_eq_true, if_false, hx, Frontier.meetAt, Frontier.Meets, hodd]
    rfl

/-- A step backward is a sweep over one diagonal, and leaves the other frontier alone. -/
theorem Search.stepBackward_eq (s : Search) (k : Int) :
    stepBackward p old new d s k =
      ⟨s.forward, (sweepBackward p old new d [k] s).1, (sweepBackward p old new d [k] s).2⟩ := by
  obtain ⟨forward, backward, found⟩ := s
  cases found with
  | some point => rfl
  | none =>
    have heven : ((old.length : Int) - new.length) % 2 = 0 ↔
        ((old.length : Int) - new.length + (0 : Nat)) % 2 = 0 := by omega
    have hnear : (k - ((old.length : Int) - new.length)).natAbs ≤ d ↔
        ((k - ((old.length : Int) - new.length)).natAbs : Int) ≤ (d : Int) - (0 : Nat) := by omega
    simp only [stepBackward, sweepBackward, List.foldl_cons, List.foldl_nil, Frontier.visit,
      Option.isSome_none, Bool.false_eq_true, if_false, Frontier.meetAt, Frontier.Meets, heven,
      hnear]
    rfl

/-- Steps forward are one sweep over all of their diagonals. -/
theorem Search.foldl_stepForward (ks : List Int) (s : Search) :
    ks.foldl (stepForward p old new d) s =
      ⟨(sweepForward p old new d ks s).1, s.backward, (sweepForward p old new d ks s).2⟩ := by
  induction ks generalizing s with
  | nil => rfl
  | cons k ks ih =>
    rw [List.foldl_cons, ih, stepForward_eq]
    rfl

/-- Steps backward are one sweep over all of their diagonals. -/
theorem Search.foldl_stepBackward (ks : List Int) (s : Search) :
    ks.foldl (stepBackward p old new d) s =
      ⟨s.forward, (sweepBackward p old new d ks s).1, (sweepBackward p old new d ks s).2⟩ := by
  induction ks generalizing s with
  | nil => rfl
  | cons k ks ih =>
    rw [List.foldl_cons, ih, stepBackward_eq]
    rfl

/-! ## The middle -/

/-- A point of two spans that is none of their two common corners. -/
structure Interior (old new : Span) (point : Nat × Nat) : Prop where
  start_le_old : old.start ≤ point.1
  old_le_stop : point.1 ≤ old.stop
  start_le_new : new.start ≤ point.2
  new_le_stop : point.2 ≤ new.stop
  after : old.start + new.start < point.1 + point.2
  before : point.1 + point.2 < old.stop + new.stop

/-- Spans that are not empty and begin with a difference. -/
structure Apart (p : Pair) (old new : Span) : Prop where
  old_nonempty : old.start < old.stop
  new_nonempty : new.start < new.stop
  first : p.same old.start new.start = false
  last : p.same (old.stop - 1) (new.stop - 1) = false

/-- Spans that differ at both ends are not empty. -/
theorem Apart.length_pos (h : Apart p old new) : 0 < old.length ∧ 0 < new.length :=
  ⟨Nat.sub_pos_of_lt h.old_nonempty, Nat.sub_pos_of_lt h.new_nonempty⟩

/-- A place that a search forward has reached is inside the spans if it has moved and is not their
far corner. -/
theorem Apart.interior_forwardPlace (h : Apart p old new) {k : Int} {x : Nat} (hk : k ≤ x)
    (hmoved : k < 2 * x) (hold : x ≤ old.length) (hnew : x ≤ new.length + k)
    (hcorner : 2 * x < old.length + new.length + k) :
    Interior old new (forwardPlace old new k x) := by
  have holdSpan := h.old_nonempty
  have hnewSpan := h.new_nonempty
  unfold forwardPlace
  simp only [Span.length] at hold hnew hcorner
  constructor <;> dsimp only <;> omega

/-- A place that a search backward has reached is inside the spans if it has moved and is not their
near corner. -/
theorem Apart.interior_backwardPlace (h : Apart p old new) {k : Int} {x : Nat} (hk : k ≤ x)
    (hmoved : k < 2 * x) (hcorner : 2 * x < old.length + new.length + k) :
    Interior old new (backwardPlace p old new k x) := by
  have holdSpan := h.old_nonempty
  have hnewSpan := h.new_nonempty
  have hrun := bounded_backwardRun p old new k x
  have hbefore := backwardRun_before_corner h.first (k := k) (x := x)
  unfold backwardPlace
  simp only [Span.length] at hcorner hrun hbefore ⊢
  constructor <;> dsimp only <;> omega

/-- What holds of a search after `d` edits from each end, if it goes on. -/
structure Search.Ready (s : Search) (old new : Span) (limit d : Nat) : Prop where
  found : s.found = none
  forwardFits : s.forward.Fits limit
  backwardFits : s.backward.Fits limit
  forwardSound : s.forward.Sound old.length new.length d
  backwardSound : s.backward.Sound old.length new.length d
  forwardInside : ((old.length : Int) - new.length + (1 : Nat)) % 2 = 0 →
    s.forward.Inside old.length new.length d 1
  backwardInside : ((old.length : Int) - new.length + (0 : Nat)) % 2 = 0 →
    s.backward.Inside old.length new.length d 0

/-- The search after both sweeps for a distance. -/
def Search.round (p : Pair) (old new : Span) (d : Nat) (s : Search) : Search :=
  (diagonals d).foldl (stepBackward p old new d) ((diagonals d).foldl (stepForward p old new d) s)

/-- A round of sweeps finds a middle, or is followed by another. -/
theorem Search.Ready.round (h : s.Ready old new limit d) (hapart : Apart p old new)
    (hd : d + 1 ≤ limit) :
    (∃ point, (s.round p old new (d + 1)).found = some point ∧ Interior old new point) ∨
      (s.round p old new (d + 1)).Ready old new limit (d + 1) := by
  obtain ⟨hn, hm⟩ := hapart.length_pos
  unfold Search.round
  rw [foldl_stepForward, foldl_stepBackward]
  unfold sweepForward sweepBackward
  rw [h.found]
  -- The frontier from the end has one edit less at first, and as many afterwards.
  obtain ⟨k, hk, hfound, hold, hnew, hcorner⟩ | ⟨forward, hsweep, hfits, hsound, hinside⟩ :=
    h.forwardSound.sweep (forwardPlace old new) h.forwardFits hd hn hm h.forwardInside
      (Nat.le_refl 1) h.backwardSound rfl (bounded_forwardRun p old new)
  · left
    have hmoved := h.forwardSound.distance_le_advance hk
    rw [hfound, Frontier.foldl_visit_of_found]
    exact ⟨_, rfl, hapart.interior_forwardPlace (h.forwardSound.le_advance hk) (by omega) hold hnew
      hcorner⟩
  · rw [hsweep]
    obtain ⟨k, hk, hfound, -, -, hcorner⟩ | ⟨backward, hsweep', hfits', hsound', hinside'⟩ :=
      h.backwardSound.sweep (backwardPlace p old new) h.backwardFits hd hn hm h.backwardInside
        (Nat.zero_le 1) hsound rfl (bounded_backwardRun p old new)
    · left
      have hmoved := h.backwardSound.distance_le_advance hk
      rw [hfound]
      exact ⟨_, rfl, hapart.interior_backwardPlace (h.backwardSound.le_advance hk) (by omega)
        hcorner⟩
    · right
      rw [hsweep']
      exact ⟨rfl, hfits, hfits', hsound, hsound', hinside, hinside'⟩

/-- As the spans differ at the front, no run begins there. -/
theorem Apart.forwardRun_zero (h : Apart p old new) : forwardRun p old new 0 0 = 0 := by
  unfold forwardRun
  dsimp only
  split
  · exact p.prefixFrom_eq_zero h.first _
  · rfl

/-- As the spans differ at the end, no run backward begins there. -/
theorem Apart.backwardRun_zero (h : Apart p old new) : backwardRun p old new 0 0 = 0 := by
  unfold backwardRun
  dsimp only
  split
  · exact p.suffixBefore_eq_zero h.last _
  · rfl

/-- Without edits nothing is found, and the search goes on. -/
theorem Search.ready_zero (hapart : Apart p old new) (limit : Nat) :
    (Search.round p old new 0 ⟨Frontier.start limit, Frontier.start limit, none⟩).Ready old new
      limit 0 := by
  obtain ⟨hn, hm⟩ := hapart.length_pos
  have hfits := Frontier.fits_start limit
  have hone := Frontier.get_start limit 1
  unfold Search.round
  rw [foldl_stepForward, foldl_stepBackward]
  unfold sweepForward sweepBackward
  obtain ⟨forward, hsweep, hforward, hzero⟩ := Frontier.sweep_zero (forwardRun p old new)
    ((Frontier.start limit).meetAt old.length new.length 0 1 (forwardRun p old new)
      (forwardPlace old new)) hfits hone hapart.forwardRun_zero (if_neg fun hmeets => by
        have hnear := hmeets.2.1
        omega)
  rw [hsweep]
  obtain ⟨backward, hsweep', hbackward, hzero'⟩ := Frontier.sweep_zero (backwardRun p old new)
    (forward.meetAt old.length new.length 0 0 (backwardRun p old new)
      (backwardPlace p old new)) hfits hone hapart.backwardRun_zero (if_neg fun hmeets => by
        obtain ⟨-, hnear, hmeet⟩ := hmeets
        rw [hapart.backwardRun_zero,
          show -((0 : Int) - ((old.length : Int) - new.length)) = 0 by omega, hzero] at hmeet
        omega)
  rw [hsweep']
  exact ⟨rfl, hforward, hbackward, Frontier.sound_zero hzero, Frontier.sound_zero hzero',
    fun _ => Frontier.inside_zero hzero hn hm, fun _ => Frontier.inside_zero hzero' hn hm⟩

/-- What a search finds is within the spans and none of their common corners. -/
theorem Search.Ready.run (hapart : Apart p old new) {tries : Nat} {point : Nat × Nat}
    (h : s.Ready old new limit d) (hle : d + tries ≤ limit)
    (hfound : Search.run p old new tries (d + 1) s = some point) : Interior old new point := by
  induction tries generalizing d s with
  | zero => 
    rw [Search.run, h.found] at hfound
    cases hfound
  | succ tries ih =>
    have hrun : Search.run p old new (tries + 1) (d + 1) s =
        if (s.round p old new (d + 1)).found.isSome then (s.round p old new (d + 1)).found
        else Search.run p old new tries (d + 2) (s.round p old new (d + 1)) := rfl
    rw [hrun] at hfound
    obtain ⟨middle, hmiddle, hinterior⟩ | hready := h.round hapart (by omega)
    · rw [hmiddle] at hfound
      cases hfound
      exact hinterior
    · rw [hready.found] at hfound
      exact ih hready (by omega) hfound

/-- The middle of a path is within the spans and none of their common corners. -/
theorem interior_middle? (hapart : Apart p old new) {point : Nat × Nat}
    (h : middle? p old new = some point) : Interior old new point := by
  have hready := Search.ready_zero hapart (maxDistance old.length new.length)
  have hrun : middle? p old new =
      if (Search.round p old new 0 ⟨_, _, none⟩).found.isSome then
        (Search.round p old new 0 ⟨_, _, none⟩).found
      else Search.run p old new ((old.length + new.length + 1) / 2) 1
        (Search.round p old new 0 ⟨_, _, none⟩) := rfl
  rw [hrun, hready.found] at h
  exact hready.run hapart (by unfold maxDistance; omega) h

end EditScript

end ViewSchema
