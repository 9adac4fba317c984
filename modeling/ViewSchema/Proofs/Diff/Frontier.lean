import Mathlib.Data.List.Nodup
import ViewSchema.Diff.EditScript

/-!
# Frontiers of a search

A frontier holds, for each diagonal of a grid of `n` by `m` positions, how far a number of edits
leads on it.  It may lead beyond the grid, but on the way between two neighbouring diagonals it
leaves the grid only where the other one has reached its border.  Until two frontiers meet, the
diagonals where they could meet have not reached a border.  So the edit after which they meet
starts inside of the grid, and not at its last corner.

Main results:

- Theorem `Frontier.Sound.next`: one more edit keeps a frontier sound.
- Theorem `Frontier.Sound.advance_inside`: an edit after which frontiers may meet ends inside of
  the grid.
-/

namespace ViewSchema

namespace EditScript

theorem mem_diagonals {d : Nat} {k : Int} :
    k ∈ diagonals d ↔ -d ≤ k ∧ k ≤ d ∧ (k + d) % 2 = 0 := by
  simp only [diagonals, List.mem_map, List.mem_range]
  constructor
  · rintro ⟨i, hi, rfl⟩
    omega
  · rintro ⟨hlow, hhigh, heven⟩
    exact ⟨((d - k) / 2).toNat, by omega, by omega⟩

theorem nodup_diagonals (d : Nat) : (diagonals d).Nodup :=
  (List.nodup_range).map fun i j (hij : (d : Int) - 2 * i = d - 2 * j) => by omega

/-- The diagonals of one more edit are between those before, or the last ones. -/
theorem above_mem_diagonals {d : Nat} {k : Int} (hk : k ∈ diagonals (d + 1))
    (hlast : k ≠ (d + 1 : Nat)) : k + 1 ∈ diagonals d := by
  rw [mem_diagonals] at hk ⊢
  omega

theorem below_mem_diagonals {d : Nat} {k : Int} (hk : k ∈ diagonals (d + 1))
    (hlast : k ≠ -(d + 1 : Nat)) : k - 1 ∈ diagonals d := by
  rw [mem_diagonals] at hk ⊢
  omega

namespace Frontier

variable {f g : Frontier} {n m d limit : Nat} {k l : Int}

/-! ## Next positions -/

/-- A step comes from the diagonal above, or from the one below if that is not behind. -/
theorem advance_cases (f : Frontier) (d k : Int) :
    (f.advance d k = f.get (k + 1) ∧ (k = -d ∨ k ≠ d ∧ f.get (k - 1) < f.get (k + 1))) ∨
      (f.advance d k = f.get (k - 1) + 1 ∧ k ≠ -d ∧ (k = d ∨ f.get (k + 1) ≤ f.get (k - 1))) := by
  unfold advance
  split
  · next h => exact .inl ⟨rfl, h⟩
  · next h =>
    obtain ⟨hlow, hother⟩ := not_or.1 h
    refine .inr ⟨rfl, hlow, ?_⟩
    by_cases hhigh : k = d
    · exact .inl hhigh
    · exact .inr (Nat.not_lt.1 fun hlt => hother ⟨hhigh, hlt⟩)

theorem get_le_advance (f : Frontier) {d k : Int} (h : k ≠ d) :
    f.get (k + 1) ≤ f.advance d k := by
  obtain ⟨heq, -⟩ | ⟨heq, -, hle⟩ := advance_cases f d k
  · omega
  · have := hle.resolve_left h
    omega

theorem get_lt_advance (f : Frontier) {d k : Int} (h : k ≠ -d) :
    f.get (k - 1) < f.advance d k := by
  obtain ⟨heq, hlt⟩ | ⟨heq, -⟩ := advance_cases f d k
  · have := hlt.resolve_left h
    omega
  · omega

/-! ## Sound frontiers -/

/-- What holds of the positions that `d` edits lead to in a grid of `n` by `m`. -/
structure Sound (f : Frontier) (n m d : Nat) : Prop where
  /-- Without edits nothing is reached: what is compared begins differently. -/
  start : d = 0 → f.get 0 = 0
  diagonal_le : ∀ k ∈ diagonals d, k ≤ f.get k
  /-- Each edit leads one position on. -/
  distance_le : ∀ k ∈ diagonals d, d + k ≤ 2 * f.get k
  /-- Insertions alone do not pass the end of the old sequence. -/
  lowest_le : f.get (-d) ≤ n
  /-- Deletions alone do not pass the end of the new sequence. -/
  highest_le : f.get d ≤ m + d
  /-- Beyond the end of the old sequence only if the diagonal below reaches it. -/
  passes_old : ∀ k, k - 1 ∈ diagonals d → k + 1 ∈ diagonals d →
    n < f.get (k + 1) → n ≤ f.get (k - 1)
  /-- Beyond the end of the new sequence only if the diagonal above reaches it. -/
  passes_new : ∀ k, k - 1 ∈ diagonals d → k + 1 ∈ diagonals d →
    m + (k - 1) < f.get (k - 1) → m + (k + 1) ≤ f.get (k + 1)

/-- A frontier without edits. -/
theorem sound_zero (h : f.get 0 = 0) : f.Sound n m 0 where
  start _ := h
  diagonal_le k hk := by
    rw [mem_diagonals] at hk
    omega
  distance_le k hk := by
    rw [mem_diagonals] at hk
    omega
  lowest_le := by
    show f.get 0 ≤ n
    omega
  highest_le := by
    show f.get 0 ≤ m + 0
    omega
  passes_old k hbelow habove := by
    rw [mem_diagonals] at hbelow habove
    omega
  passes_new k hbelow habove := by
    rw [mem_diagonals] at hbelow habove
    omega

/-- One more edit leads from `f` to `g`: an edit on each diagonal, and equal entries after it within
the grid. -/
def Extends (f g : Frontier) (n m d : Nat) : Prop :=
  ∀ k ∈ diagonals d, ∃ run, g.get k = f.advance d k + run ∧
    (run = 0 ∨ f.advance d k + run ≤ n ∧ f.advance d k + run ≤ m + k)

/-- What holds of the positions that an edit leads to holds after equal entries. -/
theorem Extends.bounds (h : Extends f g n m d) (hk : k ∈ diagonals d) :
    f.advance d k ≤ g.get k ∧ (n < g.get k → g.get k = f.advance d k) ∧
      (m + k < g.get k → g.get k = f.advance d k) := by
  obtain ⟨run, hrun, hnone | hinside⟩ := h k hk
  · exact ⟨by omega, fun _ => by omega, fun _ => by omega⟩
  · exact ⟨by omega, fun _ => by omega, fun _ => by omega⟩

/-- Where the edit on a diagonal comes from, among the diagonals of one edit less. -/
theorem advance_from (f : Frontier) (hk : k ∈ diagonals (d + 1)) :
    (k + 1 ∈ diagonals d ∧ f.advance (d + 1 : Nat) k = f.get (k + 1)) ∨
      (k - 1 ∈ diagonals d ∧ f.advance (d + 1 : Nat) k = f.get (k - 1) + 1) := by
  obtain ⟨heq, hfrom⟩ | ⟨heq, hfrom, -⟩ := advance_cases f (d + 1 : Nat) k
  · exact .inl ⟨above_mem_diagonals hk (by omega), heq⟩
  · exact .inr ⟨below_mem_diagonals hk hfrom, heq⟩

theorem Sound.le_advance (h : f.Sound n m d) (hk : k ∈ diagonals (d + 1)) :
    k ≤ f.advance (d + 1 : Nat) k := by
  obtain ⟨hmem, heq⟩ | ⟨hmem, heq⟩ := advance_from f hk
  · have := h.diagonal_le _ hmem
    omega
  · have := h.diagonal_le _ hmem
    omega

theorem Sound.distance_le_advance (h : f.Sound n m d) (hk : k ∈ diagonals (d + 1)) :
    (d + 1 : Nat) + k ≤ 2 * f.advance (d + 1 : Nat) k := by
  obtain ⟨hmem, heq⟩ | ⟨hmem, heq⟩ := advance_from f hk
  · have := h.distance_le _ hmem
    omega
  · have := h.distance_le _ hmem
    omega

/-- One more edit keeps a frontier sound. -/
theorem Sound.next (h : f.Sound n m d) (hnext : Extends f g n m (d + 1)) :
    g.Sound n m (d + 1) where
  start hd := absurd hd (Nat.succ_ne_zero d)
  diagonal_le k hk := by
    have hle := (hnext.bounds hk).1
    have hstep := h.le_advance hk
    omega
  distance_le k hk := by
    have hle := (hnext.bounds hk).1
    have hstep := h.distance_le_advance hk
    omega
  lowest_le := by
    have hk : -((d + 1 : Nat) : Int) ∈ diagonals (d + 1) := mem_diagonals.2 (by omega)
    obtain ⟨hle, hold, -⟩ := hnext.bounds hk
    obtain ⟨heq, -⟩ | ⟨-, hne, -⟩ := advance_cases f (d + 1 : Nat) (-(d + 1 : Nat))
    · have hlow := h.lowest_le
      rw [show -((d + 1 : Nat) : Int) + 1 = -d by omega] at heq
      omega
    · exact absurd rfl hne
  highest_le := by
    have hk : ((d + 1 : Nat) : Int) ∈ diagonals (d + 1) := mem_diagonals.2 (by omega)
    obtain ⟨hle, -, hnew⟩ := hnext.bounds hk
    obtain ⟨-, hne⟩ | ⟨heq, -⟩ := advance_cases f (d + 1 : Nat) (d + 1 : Nat)
    · omega
    · have hhigh := h.highest_le
      rw [show ((d + 1 : Nat) : Int) - 1 = d by omega] at heq
      omega
  passes_old k hbelow habove hpast := by
    have hle := (hnext.bounds hbelow).1
    have hstep := (hnext.bounds habove).2.1 hpast
    have hbehind := get_le_advance f (d := (d + 1 : Nat)) (k := k - 1)
      (by rw [mem_diagonals] at habove; omega)
    rw [Int.sub_add_cancel] at hbehind
    have hmem : k ∈ diagonals d := by
      rw [mem_diagonals] at hbelow habove ⊢
      omega
    obtain ⟨hfrom, heq⟩ | ⟨-, heq⟩ := advance_from f habove
    · have := h.passes_old (k + 1) (by rwa [Int.add_sub_cancel]) hfrom (by omega)
      rw [Int.add_sub_cancel] at this
      omega
    · rw [Int.add_sub_cancel] at heq
      omega
  passes_new k hbelow habove hpast := by
    have hle := (hnext.bounds habove).1
    have hstep := (hnext.bounds hbelow).2.2 hpast
    have hbehind := get_lt_advance f (d := (d + 1 : Nat)) (k := k + 1)
      (by rw [mem_diagonals] at hbelow; omega)
    rw [Int.add_sub_cancel] at hbehind
    have hmem : k ∈ diagonals d := by
      rw [mem_diagonals] at hbelow habove ⊢
      omega
    obtain ⟨-, heq⟩ | ⟨hfrom, heq⟩ := advance_from f hbelow
    · rw [Int.sub_add_cancel] at heq
      omega
    · have := h.passes_new (k - 1) hfrom (by rwa [Int.sub_add_cancel]) (by omega)
      rw [Int.sub_add_cancel] at this
      omega

/-! ## Meeting -/

/-- Where the frontier could meet one of `d - c` edits from the other end, it is within the grid. -/
def Inside (f : Frontier) (n m d c : Nat) : Prop :=
  ∀ k ∈ diagonals d, ((k - (n - m)).natAbs : Int) ≤ d - c → f.get k < n ∧ f.get k < m + k

variable {c : Nat}

theorem inside_zero (h : f.get 0 = 0) (hn : 0 < n) (hm : 0 < m) : f.Inside n m 0 c := by
  intro k hk _
  obtain rfl : k = 0 := by
    rw [mem_diagonals] at hk
    omega
  omega

/-- From the diagonal above, frontiers may meet only within the grid. -/
theorem Sound.above_inside (h : f.Sound n m d) (hin : f.Inside n m d c) (hc : c ≤ 1)
    (hparity : ((n : Int) - m + c) % 2 = 0) (hn : 0 < n) (hk : k ∈ diagonals (d + 1))
    (hnear : ((k - (n - m)).natAbs : Int) ≤ (d + 1 : Nat) - c)
    (hfrom : k = -(d + 1 : Nat) ∨ k ≠ (d + 1 : Nat) ∧ f.get (k - 1) < f.get (k + 1)) :
    f.get (k + 1) ≤ n ∧ f.get (k + 1) ≤ m + k ∧ 2 * f.get (k + 1) < n + m + k := by
  have hmem := above_mem_diagonals hk (by omega)
  have hbounds := mem_diagonals.1 hk
  by_cases hreach : (((k + 1) - (n - m)).natAbs : Int) ≤ d - c
  · have := hin (k + 1) hmem hreach
    omega
  · have hedge : k = n - m + (d + 1 : Nat) - c := by omega
    by_cases hlast : k = -(d + 1 : Nat)
    · -- Only insertions lead here.
      have hle := h.lowest_le
      have hstart : d = 0 → f.get (-d) = 0 := by
        rintro rfl
        exact h.start rfl
      rw [show k + 1 = -d by omega]
      omega
    · obtain ⟨hhigh, hlt⟩ := hfrom.resolve_left hlast
      have hbelow := below_mem_diagonals hk hlast
      have hneighbour := hin (k - 1) hbelow (by omega)
      have hpasses := h.passes_old k hbelow hmem
      omega

/-- From the diagonal below, frontiers may meet only within the grid. -/
theorem Sound.below_inside (h : f.Sound n m d) (hin : f.Inside n m d c) (hc : c ≤ 1)
    (hparity : ((n : Int) - m + c) % 2 = 0) (hm : 0 < m) (hk : k ∈ diagonals (d + 1))
    (hnear : ((k - (n - m)).natAbs : Int) ≤ (d + 1 : Nat) - c) (hlow : k ≠ -(d + 1 : Nat))
    (hfrom : k = (d + 1 : Nat) ∨ f.get (k + 1) ≤ f.get (k - 1)) :
    f.get (k - 1) + 1 ≤ n ∧ f.get (k - 1) + 1 ≤ m + k ∧ 2 * (f.get (k - 1) + 1) < n + m + k := by
  have hmem := below_mem_diagonals hk hlow
  have hbounds := mem_diagonals.1 hk
  by_cases hreach : (((k - 1) - (n - m)).natAbs : Int) ≤ d - c
  · have := hin (k - 1) hmem hreach
    omega
  · have hedge : k = n - m - (d + 1 : Nat) + c := by omega
    by_cases hlast : k = (d + 1 : Nat)
    · -- Only deletions lead here.
      have hle := h.highest_le
      have hstart : d = 0 → f.get d = 0 := by
        rintro rfl
        exact h.start rfl
      rw [show k - 1 = d by omega]
      omega
    · have hle := hfrom.resolve_left hlast
      have habove := above_mem_diagonals hk hlast
      have hneighbour := hin (k + 1) habove (by omega)
      have hpasses := h.passes_new k hmem habove
      omega

/-- An edit after which frontiers may meet ends within the grid, and not at its last corner: it
comes from a diagonal where they did not meet, or from the outermost one, which is no further
beyond the grid than its neighbour. -/
theorem Sound.advance_inside (h : f.Sound n m d) (hin : f.Inside n m d c) (hc : c ≤ 1)
    (hparity : ((n : Int) - m + c) % 2 = 0) (hn : 0 < n) (hm : 0 < m) (hk : k ∈ diagonals (d + 1))
    (hnear : ((k - (n - m)).natAbs : Int) ≤ (d + 1 : Nat) - c) :
    f.advance (d + 1 : Nat) k ≤ n ∧ f.advance (d + 1 : Nat) k ≤ m + k ∧
      2 * f.advance (d + 1 : Nat) k < n + m + k := by
  obtain ⟨heq, hfrom⟩ | ⟨heq, hlow, hfrom⟩ := advance_cases f (d + 1 : Nat) k
  · rw [heq]
    exact h.above_inside hin hc hparity hn hk hnear hfrom
  · rw [heq]
    exact h.below_inside hin hc hparity hm hk hnear hlow hfrom

end Frontier

end EditScript

end ViewSchema
