import Mathlib.Data.List.Perm.Basic
import ViewSchema.Proofs.Diff.Keys
import ViewSchema.Proofs.Diff.Lines

/-!
# What a diff accounts for

A diff of two schemas accounts for every section of both: those of one schema alone are removed or
added, those of both with different lines are changed, and the rest has no change.  The lines that
are added less those that are removed are the lines of the new schema less those of the old one,
as the script of a changed section turns its old lines into the new ones.

Main results:

- Theorem `SchemaDiff.compare?_eq_some`: what the change of a section counts.
- Theorem `SchemaDiff.accounts_ofSnapshots`: the changes between snapshots with distinct keys.
- Theorem `SchemaDiff.accounts_ofSchemas`: the changes between two schemas.
-/

namespace ViewSchema

namespace SectionChange

def isAdded : SectionChange → Bool
  | added _ => true
  | _ => false

def isRemoved : SectionChange → Bool
  | removed _ => true
  | _ => false

def isChanged : SectionChange → Bool
  | changed _ _ _ _ => true
  | _ => false

/-- How many lines a change adds, less those that it removes. -/
def gain : SectionChange → Int
  | added s => s.lines.length
  | removed s => -s.lines.length
  | changed _ _ more less => more - less

end SectionChange

/-- The lines of some snapshots. -/
def Snapshot.total (snapshots : List Snapshot) : Nat := (snapshots.map (·.lines.length)).sum

/-- What the changes between two lists of snapshots account for. -/
structure SchemaDiff.Accounts (d : SchemaDiff) (before after : List Snapshot) : Prop where
  /-- Every key has at most one change. -/
  once : (d.changes.map SectionChange.key).Nodup
  removed_iff : ∀ s, .removed s ∈ d.changes ↔ s ∈ before ∧ s.key ∉ after.map Snapshot.key
  added_iff : ∀ s, .added s ∈ d.changes ↔ s ∈ after ∧ s.key ∉ before.map Snapshot.key
  changed_iff : ∀ key, (∃ hunks added removed, .changed key hunks added removed ∈ d.changes) ↔
    ∃ old ∈ before, ∃ new ∈ after, old.key = key ∧ new.key = key ∧ old.lines ≠ new.lines
  /-- Removed and changed sections in the old order, then added ones in the new order. -/
  order : ∃ kept added, d.changes = kept ++ added ∧
    (kept.map SectionChange.key).Sublist (before.map Snapshot.key) ∧
    (added.map SectionChange.key).Sublist (after.map Snapshot.key) ∧
    (∀ c ∈ kept, c.isAdded = false) ∧ ∀ c ∈ added, c.isAdded = true
  changed_pos : ∀ key hunks added removed, .changed key hunks added removed ∈ d.changes →
    0 < added + removed
  sectionsAdded_eq : d.stats.sectionsAdded = d.changes.countP SectionChange.isAdded
  sectionsRemoved_eq : d.stats.sectionsRemoved = d.changes.countP SectionChange.isRemoved
  sectionsChanged_eq : d.stats.sectionsChanged = d.changes.countP SectionChange.isChanged
  lines_eq : (d.stats.linesAdded : Int) - d.stats.linesRemoved =
    Snapshot.total after - Snapshot.total before

namespace SchemaDiff

variable {context : Nat} {before after : List Snapshot} {old new s : Snapshot} {key : String}
  {c : SectionChange}

/-! ## Counts -/

/-- Counting changes adds up what each of them counts. -/
theorem foldl_count (changes : List SectionChange) (stats : DiffStats) :
    let all := changes.foldl DiffStats.count stats
    all.sectionsAdded = stats.sectionsAdded + changes.countP SectionChange.isAdded ∧
    all.sectionsRemoved = stats.sectionsRemoved + changes.countP SectionChange.isRemoved ∧
    all.sectionsChanged = stats.sectionsChanged + changes.countP SectionChange.isChanged ∧
    (all.linesAdded : Int) - all.linesRemoved =
      stats.linesAdded - stats.linesRemoved + (changes.map SectionChange.gain).sum := by
  induction changes generalizing stats with
  | nil => simp
  | cons c rest ih =>
    have hrest := ih (stats.count c)
    cases c <;>
      simp only [List.foldl_cons, List.countP_cons, List.map_cons, List.sum_cons,
        DiffStats.count, SectionChange.isAdded, SectionChange.isRemoved,
        SectionChange.isChanged, SectionChange.gain, if_true, Bool.false_eq_true, if_false]
        at hrest ⊢ <;>
      omega

/-! ## One section -/

/-- The lines of a snapshot are those of its text, if none of them holds a line break. -/
theorem linesOf_text (h : ∀ line ∈ s.lines, Hunk.Unbroken line) :
    Hunk.linesOf s.text = s.lines.map (· ++ "\n") :=
  Hunk.linesOf_join h

/-- The changes from the lines of one snapshot to those of another. -/
def lineChanges (old new : Snapshot) : List Hunk.LineChange :=
  EditScript.changesOf (Hunk.linesOf old.text) (Hunk.linesOf new.text)
    (EditScript.ofLines (Hunk.linesOf old.text) (Hunk.linesOf new.text))

/-- Two snapshots compare without a change exactly if their lines are the same. -/
theorem compare?_eq_none : compare? context old new = none ↔ old.lines = new.lines := by
  unfold compare?
  split <;> simp_all

/-- Snapshots with different lines compare as a change, which counts the lines of their edit
script. -/
theorem compare?_of_ne (context : Nat) (h : old.lines ≠ new.lines) :
    ∃ hunks, compare? context old new =
      some (.changed old.key hunks (EditScript.inserted (lineChanges old new))
        (EditScript.deleted (lineChanges old new))) := by
  unfold compare?
  rw [if_neg h]
  exact ⟨_, rfl⟩

/-- They turn the lines of the old snapshot into those of the new one. -/
theorem lines_lineChanges (hold : ∀ line ∈ old.lines, Hunk.Unbroken line)
    (hnew : ∀ line ∈ new.lines, Hunk.Unbroken line) :
    EditScript.oldLines (lineChanges old new) = old.lines.map (· ++ "\n") ∧
      EditScript.newLines (lineChanges old new) = new.lines.map (· ++ "\n") := by
  rw [← linesOf_text hold, ← linesOf_text hnew]
  exact EditScript.lines_ofLines _ _

/-- The change of a section has its key, counts some lines, and those that it counts make up for the
difference. -/
theorem compare?_eq_some (hold : ∀ line ∈ old.lines, Hunk.Unbroken line)
    (hnew : ∀ line ∈ new.lines, Hunk.Unbroken line) (h : compare? context old new = some c) :
    old.lines ≠ new.lines ∧ ∃ hunks more less, c = .changed old.key hunks more less ∧
      0 < more + less ∧ old.lines.length + more = new.lines.length + less := by
  have hne : old.lines ≠ new.lines := fun heq => by
    rw [compare?_eq_none.2 heq] at h
    cases h
  obtain ⟨hunks, hchange⟩ := compare?_of_ne context hne
  obtain ⟨holdLines, hnewLines⟩ := lines_lineChanges hold hnew
  rw [hchange] at h
  cases h
  refine ⟨hne, hunks, _, _, rfl, Nat.pos_of_ne_zero fun hzero => hne ?_, ?_⟩
  · obtain ⟨hinserted, hdeleted⟩ := Nat.add_eq_zero_iff.1 hzero
    have hsame := EditScript.newLines_eq_oldLines hinserted hdeleted
    rw [holdLines, hnewLines] at hsame
    exact (List.map_injective_iff.2 (fun _ _ => (String.append_left_inj "\n").1) hsame).symm
  · have hcount := EditScript.length_newLines_add_deleted (lineChanges old new)
    rw [holdLines, hnewLines, List.length_map, List.length_map] at hcount
    exact hcount.symm

/-! ## All sections -/

/-- The change of an old snapshot. -/
def changeOf (context : Nat) (after : List Snapshot) (old : Snapshot) : Option SectionChange :=
  match find? after old.key with
  | none => some (.removed old)
  | some new => compare? context old new

/-- The snapshots whose keys are new. -/
def fresh (before after : List Snapshot) : List Snapshot :=
  after.filter fun new => !before.any fun old => old.key == new.key

/-- Changes to what was there come first, and what was added behind them. -/
theorem changes_ofSnapshots (context : Nat) (before after : List Snapshot) :
    (ofSnapshots context before after).changes =
      before.filterMap (changeOf context after) ++ (fresh before after).map .added := rfl

/-- What is added is what stands under a key that was not there. -/
theorem mem_fresh : s ∈ fresh before after ↔ s ∈ after ∧ s.key ∉ before.map Snapshot.key := by
  simp only [fresh, List.mem_filter, Bool.not_eq_true', List.any_eq_false, beq_iff_eq,
    List.mem_map, not_exists, not_and]

/-- With distinct keys, a key finds its only snapshot. -/
theorem find?_eq_some_iff (hdistinct : (after.map Snapshot.key).Nodup) :
    find? after key = some s ↔ s ∈ after ∧ s.key = key := by
  refine ⟨mem_of_find?, ?_⟩
  rintro ⟨hs, rfl⟩
  obtain ⟨found, hfound⟩ := exists_find? hs
  obtain ⟨hmem, hkey⟩ := mem_of_find? hfound
  rw [hfound, List.inj_on_of_nodup_map hdistinct hmem hs hkey]

/-- Nothing is found under a key that no snapshot has. -/
theorem find?_eq_none_iff : find? after key = none ↔ key ∉ after.map Snapshot.key := by
  simp [find?]

/-- An old snapshot is removed, or changed if the new one has other lines. -/
theorem changeOf_eq_some (hlines : ∀ s ∈ before ++ after, ∀ line ∈ s.lines, Hunk.Unbroken line)
    (hold : old ∈ before) (h : changeOf context after old = some c) :
    (c = .removed old ∧ find? after old.key = none) ∨
      ∃ new, find? after old.key = some new ∧ old.lines ≠ new.lines ∧ ∃ hunks more less,
        c = .changed old.key hunks more less ∧ 0 < more + less ∧
          old.lines.length + more = new.lines.length + less := by
  unfold changeOf at h
  split at h
  · next hnone =>
    cases h
    exact .inl ⟨rfl, hnone⟩
  · next new hfound =>
    obtain ⟨hne, hchange⟩ := compare?_eq_some (hlines old (List.mem_append_left _ hold))
      (hlines new (List.mem_append_right _ (mem_of_find? hfound).1)) h
    exact .inr ⟨new, hfound, hne, hchange⟩

/-- Without a change, the new snapshot has the same lines. -/
theorem changeOf_eq_none (h : changeOf context after old = none) :
    ∃ new, find? after old.key = some new ∧ old.lines = new.lines := by
  unfold changeOf at h
  split at h
  · cases h
  · next new hfound => exact ⟨new, hfound, compare?_eq_none.1 h⟩

/-- A snapshot that is found under its key is compared. -/
theorem changeOf_of_found (h : find? after old.key = some new) :
    changeOf context after old = compare? context old new := by
  rw [changeOf, h]

/-- A snapshot whose key is gone is removed. -/
theorem changeOf_of_missing (h : find? after old.key = none) :
    changeOf context after old = some (.removed old) := by
  rw [changeOf, h]

/-- Whatever its lines, an old snapshot is removed as it is or changed under its key. -/
theorem changeOf_cases (h : changeOf context after old = some c) :
    (c = .removed old ∧ find? after old.key = none) ∨
      ∃ hunks more less, c = .changed old.key hunks more less := by
  cases hfound : find? after old.key with
  | none =>
    rw [changeOf_of_missing hfound] at h
    cases h
    exact .inl ⟨rfl, rfl⟩
  | some new =>
    rw [changeOf_of_found hfound] at h
    by_cases hlines : old.lines = new.lines
    · rw [compare?_eq_none.2 hlines] at h
      cases h
    · obtain ⟨hunks, hchange⟩ := compare?_of_ne context hlines
      rw [hchange] at h
      cases h
      exact .inr ⟨hunks, _, _, rfl⟩

/-- A snapshot is only removed if it is missing. -/
theorem changeOf_eq_removed (h : changeOf context after old = some (.removed s)) :
    s = old ∧ find? after old.key = none := by
  obtain ⟨heq, hnone⟩ | ⟨_, _, _, heq⟩ := changeOf_cases h
  · cases heq
    exact ⟨rfl, hnone⟩
  · cases heq

/-- What was there is not added. -/
theorem isAdded_of_changeOf (h : changeOf context after old = some c) : c.isAdded = false := by
  obtain ⟨rfl, -⟩ | ⟨_, _, _, rfl⟩ := changeOf_cases h <;> rfl

/-- A change has the key of the snapshot that it changes. -/
theorem key_of_changeOf (h : changeOf context after old = some c) : c.key = old.key := by
  obtain ⟨rfl, -⟩ | ⟨_, _, _, rfl⟩ := changeOf_cases h <;> rfl

/-- The new snapshot that an old one is matched with. -/
def counterpart (after : List Snapshot) (old : Snapshot) : Option Snapshot := find? after old.key

/-- What is made of snapshots with their keys has their keys, in their order. -/
theorem keys_filterMap_sublist {α : Type} {f : Snapshot → Option α} {keyOf : α → String}
    (h : ∀ {s a}, f s = some a → keyOf a = s.key) (snapshots : List Snapshot) :
    ((snapshots.filterMap f).map keyOf).Sublist (snapshots.map Snapshot.key) := by
  induction snapshots with
  | nil => exact List.Sublist.refl []
  | cons s rest ih =>
    cases hmade : f s with
    | none =>
      rw [List.filterMap_cons_none hmade]
      exact ih.cons _
    | some a =>
      rw [List.filterMap_cons_some hmade, List.map_cons, List.map_cons, h hmade]
      exact ih.cons_cons _

/-! ## Lines -/

/-- The lines of snapshots add up. -/
theorem total_cons (s : Snapshot) (rest : List Snapshot) :
    Snapshot.total (s :: rest) = s.lines.length + Snapshot.total rest := List.sum_cons

/-- The lines of two lists of snapshots add up. -/
theorem total_append (xs ys : List Snapshot) :
    Snapshot.total (xs ++ ys) = Snapshot.total xs + Snapshot.total ys := by
  rw [Snapshot.total, List.map_append, List.sum_append]
  rfl

/-- The order of snapshots does not matter for their lines. -/
theorem total_perm {xs ys : List Snapshot} (h : xs.Perm ys) :
    Snapshot.total xs = Snapshot.total ys :=
  (h.map _).sum_nat

/-- Added snapshots gain all of their lines. -/
theorem sum_gain_added (snapshots : List Snapshot) :
    ((snapshots.map SectionChange.added).map SectionChange.gain).sum =
      Snapshot.total snapshots := by
  induction snapshots with
  | nil => rfl
  | cons s rest ih =>
    rw [List.map_cons, List.map_cons, List.sum_cons, ih, total_cons, SectionChange.gain]
    omega

/-- Changes to old snapshots gain the lines of the new ones that these are matched with, and lose
their own. -/
theorem sum_gain_changes (hlines : ∀ s ∈ before ++ after, ∀ line ∈ s.lines, Hunk.Unbroken line)
    {olds : List Snapshot} (holds : ∀ old ∈ olds, old ∈ before) :
    ((olds.filterMap (changeOf context after)).map SectionChange.gain).sum =
      (Snapshot.total (olds.filterMap (counterpart after)) : Int) - Snapshot.total olds := by
  induction olds with
  | nil => rfl
  | cons old rest ih =>
    obtain ⟨hold, hrest⟩ := List.forall_mem_cons.1 holds
    have hsum := ih hrest
    cases hchange : changeOf context after old with
    | none =>
      obtain ⟨new, hnew, hsame⟩ := changeOf_eq_none hchange
      rw [List.filterMap_cons_none hchange, List.filterMap_cons_some (f := counterpart after) hnew,
        total_cons, total_cons, hsum, hsame]
      omega
    | some c =>
      rw [List.filterMap_cons_some hchange, List.map_cons, List.sum_cons, total_cons, hsum]
      obtain ⟨rfl, hnone⟩ | ⟨new, hnew, -, hunks, more, less, rfl, -, hcount⟩ :=
        changeOf_eq_some hlines hold hchange
      · rw [List.filterMap_cons_none (f := counterpart after) hnone, SectionChange.gain]
        omega
      · rw [List.filterMap_cons_some (f := counterpart after) hnew, total_cons, SectionChange.gain]
        omega

/-- The new snapshots that old ones are matched with are those whose keys are not new. -/
theorem counterparts_perm (hbefore : (before.map Snapshot.key).Nodup)
    (hafter : (after.map Snapshot.key).Nodup) :
    (before.filterMap (counterpart after)).Perm
      (after.filter fun new => before.any fun old => old.key == new.key) := by
  have hdistinct : (before.filterMap (counterpart after)).Nodup :=
    ((keys_filterMap_sublist (fun h => (mem_of_find? h).2) before).nodup hbefore).of_map
  refine (List.perm_ext_iff_of_nodup hdistinct (hafter.of_map.filter _)).2 fun s => ?_
  simp only [List.mem_filterMap, counterpart, find?_eq_some_iff hafter, List.mem_filter,
    List.any_eq_true, beq_iff_eq]
  constructor
  · rintro ⟨old, hold, hs, hkey⟩
    exact ⟨hs, old, hold, hkey.symm⟩
  · rintro ⟨hs, old, hold, hkey⟩
    exact ⟨old, hold, hs, hkey.symm⟩

/-- Altogether, changes gain the lines of the new snapshots and lose those of the old ones. -/
theorem sum_gain_ofSnapshots (hbefore : (before.map Snapshot.key).Nodup)
    (hafter : (after.map Snapshot.key).Nodup)
    (hlines : ∀ s ∈ before ++ after, ∀ line ∈ s.lines, Hunk.Unbroken line) :
    ((ofSnapshots context before after).changes.map SectionChange.gain).sum =
      (Snapshot.total after : Int) - Snapshot.total before := by
  -- New snapshots are either matched with an old one or added.
  have hmatched := total_perm (counterparts_perm hbefore hafter)
  have hall := total_perm (List.filter_append_perm
    (fun new => before.any fun old => old.key == new.key) after)
  rw [total_append] at hall
  rw [changes_ofSnapshots, List.map_append, List.sum_append,
    sum_gain_changes hlines fun _ h => h, sum_gain_added, hmatched, fresh]
  omega

/-! ## The account -/

/-- A change is one of a snapshot that was there, or an addition. -/
theorem mem_changes : c ∈ (ofSnapshots context before after).changes ↔
    (∃ old ∈ before, changeOf context after old = some c) ∨
      ∃ new ∈ fresh before after, .added new = c := by
  rw [changes_ofSnapshots, List.mem_append, List.mem_filterMap, List.mem_map]

/-- Changes to old snapshots come in their order. -/
theorem keys_changes_sublist (context : Nat) (before after : List Snapshot) :
    ((before.filterMap (changeOf context after)).map SectionChange.key).Sublist
      (before.map Snapshot.key) :=
  keys_filterMap_sublist key_of_changeOf before

/-- Added snapshots come in the order of the new ones. -/
theorem keys_added_sublist (before after : List Snapshot) :
    (((fresh before after).map SectionChange.added).map SectionChange.key).Sublist
      (after.map Snapshot.key) := by
  rw [List.map_map]
  exact List.filter_sublist.map Snapshot.key

/-- With distinct keys on both sides, no key changes twice. -/
theorem nodup_keys_changes (hbefore : (before.map Snapshot.key).Nodup)
    (hafter : (after.map Snapshot.key).Nodup) :
    ((ofSnapshots context before after).changes.map SectionChange.key).Nodup := by
  rw [changes_ofSnapshots, List.map_append, List.nodup_append]
  refine ⟨(keys_changes_sublist context before after).nodup hbefore,
    (keys_added_sublist before after).nodup hafter, ?_⟩
  rintro key hkey _ hadded rfl
  have hold := (keys_changes_sublist context before after).subset hkey
  rw [List.map_map] at hadded
  obtain ⟨new, hnew, rfl⟩ := List.mem_map.1 hadded
  exact (mem_fresh.1 hnew).2 hold

/-- Exactly the snapshots under new keys are added. -/
theorem added_mem_changes : .added s ∈ (ofSnapshots context before after).changes ↔
    s ∈ after ∧ s.key ∉ before.map Snapshot.key := by
  rw [mem_changes, ← mem_fresh]
  constructor
  · rintro (⟨old, -, hchange⟩ | ⟨new, hnew, heq⟩)
    · exact Bool.noConfusion (isAdded_of_changeOf hchange)
    · cases heq
      exact hnew
  · exact fun hs => .inr ⟨s, hs, rfl⟩

/-- Exactly the snapshots under keys that are gone are removed. -/
theorem removed_mem_changes : .removed s ∈ (ofSnapshots context before after).changes ↔
    s ∈ before ∧ s.key ∉ after.map Snapshot.key := by
  rw [mem_changes, ← find?_eq_none_iff]
  constructor
  · rintro (⟨old, hold, hchange⟩ | ⟨_, _, heq⟩)
    · obtain ⟨rfl, hnone⟩ := changeOf_eq_removed hchange
      exact ⟨hold, hnone⟩
    · cases heq
  · exact fun ⟨hs, hnone⟩ => .inl ⟨s, hs, changeOf_of_missing hnone⟩

/-- A change of a section is counted. -/
theorem changed_mem_changes (hlines : ∀ s ∈ before ++ after, ∀ line ∈ s.lines, Hunk.Unbroken line)
    {hunks : String} {more less : Nat}
    (h : .changed key hunks more less ∈ (ofSnapshots context before after).changes) :
    0 < more + less ∧ ∃ old ∈ before, ∃ new ∈ after,
      old.key = key ∧ new.key = key ∧ old.lines ≠ new.lines := by
  obtain ⟨old, hold, hchange⟩ | ⟨new, -, hadded⟩ := mem_changes.1 h
  · obtain ⟨hremoved, -⟩ | ⟨new, hnew, hne, _, _, _, hchanged, hpos, -⟩ :=
      changeOf_eq_some hlines hold hchange
    · cases hremoved
    · cases hchanged
      obtain ⟨hmem, hkey⟩ := mem_of_find? hnew
      exact ⟨hpos, old, hold, new, hmem, rfl, hkey, hne⟩
  · cases hadded

/-- The changes between snapshots with distinct keys and whole lines account for all of them. -/
theorem accounts_ofSnapshots (context : Nat) (hbefore : (before.map Snapshot.key).Nodup)
    (hafter : (after.map Snapshot.key).Nodup)
    (hlines : ∀ s ∈ before ++ after, ∀ line ∈ s.lines, Hunk.Unbroken line) :
    (ofSnapshots context before after).Accounts before after := by
  obtain ⟨hadded, hremoved, hchanged, hgain⟩ :=
    foldl_count (ofSnapshots context before after).changes .zero
  exact
    { once := nodup_keys_changes hbefore hafter
      removed_iff := fun s => removed_mem_changes
      added_iff := fun s => added_mem_changes
      changed_iff := fun key => by
        constructor
        · rintro ⟨hunks, more, less, hmem⟩
          exact (changed_mem_changes hlines hmem).2
        · rintro ⟨old, hold, new, hnew, rfl, hkey, hne⟩
          obtain ⟨hunks, hcompare⟩ := compare?_of_ne context hne
          have hfound := (find?_eq_some_iff hafter).2 ⟨hnew, hkey⟩
          exact ⟨hunks, _, _, mem_changes.2
            (.inl ⟨old, hold, (changeOf_of_found hfound).trans hcompare⟩)⟩
      order := by
        refine ⟨_, _, changes_ofSnapshots context before after,
          keys_changes_sublist context before after, keys_added_sublist before after,
          fun c hc => ?_, fun c hc => ?_⟩
        · obtain ⟨old, -, hchange⟩ := List.mem_filterMap.1 hc
          exact isAdded_of_changeOf hchange
        · obtain ⟨new, -, rfl⟩ := List.mem_map.1 hc
          rfl
      changed_pos := fun key hunks more less hmem => (changed_mem_changes hlines hmem).1
      sectionsAdded_eq := hadded.trans (Nat.zero_add _)
      sectionsRemoved_eq := hremoved.trans (Nat.zero_add _)
      sectionsChanged_eq := hchanged.trans (Nat.zero_add _)
      lines_eq := by
        rw [← sum_gain_ofSnapshots hbefore hafter hlines]
        exact hgain.trans (Int.zero_add _) }

/-- The changes between two schemas whose snapshots have distinct keys and lines without line breaks
account for all of their sections and lines. -/
theorem accounts_ofSchemas (context : Nat) (old new : Json)
    (hold : ((Snapshot.ofSchema old).map Snapshot.key).Nodup)
    (hnew : ((Snapshot.ofSchema new).map Snapshot.key).Nodup)
    (hlines : ∀ s ∈ Snapshot.ofSchema old ++ Snapshot.ofSchema new, ∀ line ∈ s.lines,
      Hunk.Unbroken line) :
    (ofSchemas context old new).Accounts (Snapshot.ofSchema old) (Snapshot.ofSchema new) :=
  accounts_ofSnapshots context hold hnew hlines

/-- A page with a list of steps, of which the second one is kept, and a note. -/
def oldSteps : Json :=
  .object [("name", .string "page"), ("content", .array [
    .object [("name", .string "steps"), ("content", .array [.string "mix", .string "rest",
      .string "bake"])],
    .object [("name", .string "note"), ("content", .string "Hot!")],
    .object [("name", .string "end"), ("content", .string "Done")]])]

/-- Other steps, and a picture in place of the note. -/
def newSteps : Json :=
  .object [("name", .string "page"), ("content", .array [
    .object [("name", .string "picture"), ("src", .string "bread.jpg")],
    .object [("name", .string "steps"), ("level", .int 2), ("content", .array [.string "knead",
      .string "rest", .string "bake", .string "cool"])],
    .object [("name", .string "end"), ("content", .string "Done")]])]

/-- A page that loses a section, gains one, and has one changed. -/
theorem accounts_newSteps :
    ((Snapshot.ofSchema oldSteps).map Snapshot.key).Nodup ∧
      ((Snapshot.ofSchema newSteps).map Snapshot.key).Nodup ∧
      (∀ s ∈ Snapshot.ofSchema oldSteps ++ Snapshot.ofSchema newSteps, ∀ line ∈ s.lines,
        Hunk.Unbroken line) ∧
      (ofSchemas 3 oldSteps newSteps).changes.map SectionChange.key =
        ["page > steps", "page > note", "page > picture"] ∧
      (ofSchemas 3 oldSteps newSteps).stats = ⟨1, 1, 1, 5, 3⟩ ∧
      (ofSchemas 3 oldSteps newSteps).Accounts (Snapshot.ofSchema oldSteps)
        (Snapshot.ofSchema newSteps) := by
  have hold : ((Snapshot.ofSchema oldSteps).map Snapshot.key).Nodup := by decide +kernel
  have hnew : ((Snapshot.ofSchema newSteps).map Snapshot.key).Nodup := by decide +kernel
  have hlines : ∀ s ∈ Snapshot.ofSchema oldSteps ++ Snapshot.ofSchema newSteps, ∀ line ∈ s.lines,
      Hunk.Unbroken line := by decide +kernel
  exact ⟨hold, hnew, hlines, by decide +kernel, by decide +kernel,
    accounts_ofSchemas 3 oldSteps newSteps hold hnew hlines⟩

end SchemaDiff

end ViewSchema
