import Mathlib.Data.List.Nodup
import ViewSchema.Proofs.Compile.Visits
import ViewSchema.Proofs.Diff.EmptyDiff
import ViewSchema.Proofs.Json.Decoding

/-!
# Keys of sections

The key of a section is the chain of names that leads to it, numbered from the second section
with that chain on.  No chain is given the same number twice, so that two sections share a key
only if the chain of one of them reads like the numbered key of the other.  Where none does, the
keys are distinct, and a schema does not differ from itself.

Main results:

- Theorem `Snapshot.counted_occurrencesAll`: a walk numbers the sections of a chain one by one.
- Theorem `Snapshot.numbered_inj`: a shared key is the chain of one of its sections.
- Theorem `SchemaDiff.isEmpty_self_iff`: what it takes that snapshots do not differ from
  themselves.
- Theorem `SchemaDiff.ofSchemas_self`: which schemas have distinct keys, and do not differ from
  themselves.
-/

namespace ViewSchema

namespace Snapshot

/-! ## Occurrences -/

/-- How many sections with a chain have been seen. -/
def count (seen : Seen) (chain : String) : Nat := (seen.lookup chain).getD 0

/-- Setting the count of a chain leaves the other counts alone. -/
theorem count_set (seen : Seen) (chain other : String) (n : Nat) :
    count (Fields.set seen chain n) other = if other = chain then n else count seen other := by
  unfold count
  rw [Fields.lookup_set]
  split <;> rfl

/-- A section by its chain of names, and its number among the sections with that chain. -/
structure Occurrence where
  chain : String
  number : Nat
deriving DecidableEq

def Occurrence.key (o : Occurrence) : String := numbered o.chain o.number

/-- The section that comes next with a chain. -/
def next (seen : Seen) (chain : String) : Occurrence := ⟨chain, count seen chain + 1⟩

mutual

/-- The occurrences of an outline below a section, as the walk for its snapshots counts them. -/
def occurrences (parent : Option String) (seen : Seen) : Outline → Seen × List Occurrence
  | .text _ _ => (seen, [])
  | .section _ name _ inside =>
    let this := next seen (chainOf parent name)
    let nested := occurrencesAll (some this.key) (Fields.set seen this.chain this.number) inside
    (nested.1, this :: nested.2)

def occurrencesAll (parent : Option String) (seen : Seen) :
    List Outline → Seen × List Occurrence
  | [] => (seen, [])
  | o :: os =>
    let first := occurrences parent seen o
    let others := occurrencesAll parent first.1 os
    (others.1, first.2 ++ others.2)

end

/-- The occurrences of a schema, in compile order. -/
def occurrencesOf (schema : Json) : List Occurrence :=
  (occurrencesAll none [] (Outline.ofSchema schema)).2

mutual

/-- Snapshots have the keys of the occurrences. -/
theorem collect_eq (parent : Option String) (seen : Seen) : ∀ outline : Outline,
    ((collect parent seen outline).1, (collect parent seen outline).2.map key) =
      ((occurrences parent seen outline).1, (occurrences parent seen outline).2.map Occurrence.key)
  | .text _ _ => rfl
  | .section path name fields inside => by
    have hnested := collectAll_eq (some (next seen (chainOf parent name)).key)
      (Fields.set seen (chainOf parent name) (next seen (chainOf parent name)).number) inside
    rw [Prod.mk.injEq] at hnested
    simp only [collect, occurrences, List.map_cons, Prod.mk.injEq]
    exact ⟨hnested.1, congrArg _ hnested.2⟩

/-- Snapshots of outlines have the keys of their occurrences, and both leave the same counts. -/
theorem collectAll_eq (parent : Option String) (seen : Seen) : ∀ outlines : List Outline,
    ((collectAll parent seen outlines).1, (collectAll parent seen outlines).2.map key) =
      ((occurrencesAll parent seen outlines).1,
        (occurrencesAll parent seen outlines).2.map Occurrence.key)
  | [] => rfl
  | o :: os => by
    have hfirst := collect_eq parent seen o
    rw [Prod.mk.injEq] at hfirst
    have hothers := collectAll_eq parent (collect parent seen o).1 os
    rw [Prod.mk.injEq, hfirst.1] at hothers
    simp only [collectAll, occurrencesAll, List.map_append, hfirst.1, hfirst.2, hothers.1,
      hothers.2]

end

/-- The snapshots of a schema have the keys of its occurrences. -/
theorem map_key_ofSchema (schema : Json) :
    (ofSchema schema).map key = (occurrencesOf schema).map Occurrence.key :=
  (Prod.mk.inj (collectAll_eq none [] (Outline.ofSchema schema))).2

/-! ## Counting -/

/-- Occurrences that fill the gap between two counts, each once. -/
structure Counted (seen seen' : Seen) (entries : List Occurrence) : Prop where
  le : ∀ chain, count seen chain ≤ count seen' chain
  mem_iff : ∀ o, o ∈ entries ↔ count seen o.chain < o.number ∧ o.number ≤ count seen' o.chain
  nodup : entries.Nodup

namespace Counted

variable {seen seen' seen'' : Seen} {entries entries' : List Occurrence}

/-- No occurrences fill the gap between equal counts. -/
theorem nil (seen : Seen) : Counted seen seen [] where
  le _ := le_rfl
  mem_iff o := by simp
  nodup := List.nodup_nil

/-- The next occurrence of a chain fills a gap of one. -/
theorem singleton (seen : Seen) (chain : String) :
    Counted seen (Fields.set seen chain (next seen chain).number) [next seen chain] where
  le other := by
    rw [count_set]
    split
    · rename_i h
      exact h ▸ Nat.le_succ _
    · exact le_rfl
  mem_iff o := by
    obtain ⟨other, n⟩ := o
    simp only [List.mem_singleton, next, Occurrence.mk.injEq, count_set]
    split
    · rename_i h
      simp only [h, true_and]
      omega
    · simp_all
  nodup := List.nodup_singleton _

/-- Counts go on where earlier ones ended. -/
theorem append (h : Counted seen seen' entries) (h' : Counted seen' seen'' entries') :
    Counted seen seen'' (entries ++ entries') where
  le chain := (h.le chain).trans (h'.le chain)
  mem_iff o := by
    have hle := h.le o.chain
    have hle' := h'.le o.chain
    rw [List.mem_append, h.mem_iff, h'.mem_iff]
    omega
  nodup := by
    refine List.nodup_append.2 ⟨h.nodup, h'.nodup, ?_⟩
    rintro o ho _ ho' rfl
    exact absurd ((h.mem_iff o).1 ho).2 (Nat.not_le.2 ((h'.mem_iff o).1 ho').1)

end Counted

mutual

/-- The occurrences of an outline fill the gap that it makes between the counts, each once. -/
theorem counted_occurrences (parent : Option String) (seen : Seen) : ∀ outline : Outline,
    Counted seen (occurrences parent seen outline).1 (occurrences parent seen outline).2
  | .text _ _ => Counted.nil seen
  | .section _ name _ inside =>
    (Counted.singleton seen (chainOf parent name)).append (counted_occurrencesAll _ _ inside)

/-- A walk numbers the sections of a chain one by one. -/
theorem counted_occurrencesAll (parent : Option String) (seen : Seen) :
    ∀ outlines : List Outline, Counted seen (occurrencesAll parent seen outlines).1
      (occurrencesAll parent seen outlines).2
  | [] => Counted.nil seen
  | o :: os => (counted_occurrences parent seen o).append (counted_occurrencesAll parent _ os)

end

/-- No occurrence comes twice: sections with one chain have different numbers. -/
theorem nodup_occurrencesOf (schema : Json) : (occurrencesOf schema).Nodup :=
  (counted_occurrencesAll none [] _).nodup

variable {schema : Json} {o : Occurrence}

/-- Occurrences are numbered from one. -/
theorem number_pos (h : o ∈ occurrencesOf schema) : 0 < o.number :=
  (((counted_occurrencesAll none [] _).mem_iff o).1 h).1

/-- A chain that occurs has a first section. -/
theorem first_mem (h : o ∈ occurrencesOf schema) : ⟨o.chain, 1⟩ ∈ occurrencesOf schema := by
  have hlast := ((counted_occurrencesAll none [] (Outline.ofSchema schema)).mem_iff o).1 h
  refine ((counted_occurrencesAll none [] _).mem_iff _).2 ⟨by simp [count], ?_⟩
  have hpos := number_pos h
  exact Nat.le_trans hpos hlast.2

/-! ## Numbered keys -/

/-- The first section of a chain has the chain for its key. -/
@[simp] theorem numbered_one (chain : String) : numbered chain 1 = chain := if_pos rfl

/-- A numbered key from its end. -/
theorem reverse_numbered (chain : String) {n : Nat} (h : n ≠ 1) :
    (numbered chain n).toList.reverse =
      (Nat.toDigits 10 n).reverse ++ '#' :: ' ' :: chain.toList.reverse := by
  simp [numbered, h, Nat.toList_repr, String.toList_append]

/-- A number sign continues no number. -/
theorem stops_numberSign (rest : List Char) : Json.Stops ('#' :: rest) :=
  Json.stops_cons (by decide) rest

/-- The digits of a number, from their end. -/
theorem isTextChar_of_mem_reverse (n : Nat) :
    ∀ c ∈ (Nat.toDigits 10 n).reverse, Number.isTextChar c = true :=
  fun _ hc => Number.isTextChar_of_mem_toDigits (List.mem_reverse.1 hc)

/-- A key with a number can be read back. -/
theorem numbered_inj_of_ne {chain other : String} {n m : Nat} (hn : n ≠ 1) (hm : m ≠ 1)
    (h : numbered chain n = numbered other m) : chain = other ∧ n = m := by
  have hreversed := congrArg (fun key => key.toList.reverse) h
  simp only [reverse_numbered _ hn, reverse_numbered _ hm] at hreversed
  obtain ⟨hdigits, hrest⟩ := Json.append_inj_of_stops (isTextChar_of_mem_reverse n)
    (isTextChar_of_mem_reverse m) (stops_numberSign _) (stops_numberSign _) hreversed
  constructor
  · exact String.toList_inj.1 (List.reverse_inj.1 (by simpa using hrest))
  · rw [← ofDigits_toDigits n, ← ofDigits_toDigits m, List.reverse_inj.1 hdigits]

/-- Sections share a key only if it is the chain of one of them. -/
theorem numbered_inj {o o' : Occurrence} (h : o.key = o'.key) :
    o = o' ∨ o'.number ≠ 1 ∧ o.chain = o'.key ∨ o.number ≠ 1 ∧ o'.chain = o.key := by
  obtain ⟨chain, n⟩ := o
  obtain ⟨other, m⟩ := o'
  simp only [Occurrence.key] at h ⊢
  by_cases hn : n = 1 <;> by_cases hm : m = 1
  · left
    subst hn hm
    simpa using h
  · right; left
    subst hn
    exact ⟨hm, by simpa using h⟩
  · right; right
    subst hm
    exact ⟨hn, by simpa using h.symm⟩
  · left
    obtain ⟨rfl, rfl⟩ := numbered_inj_of_ne hn hm h
    rfl

/-- No section has a chain that reads like the key of another one with its number. -/
def Unambiguous (schema : Json) : Prop :=
  ∀ o ∈ occurrencesOf schema, o.number ≠ 1 → ∀ o' ∈ occurrencesOf schema, o'.chain ≠ o.key

/-- Keys are distinct exactly if no chain reads like a numbered key. -/
theorem nodup_keys_iff (schema : Json) :
    ((ofSchema schema).map key).Nodup ↔ Unambiguous schema := by
  rw [map_key_ofSchema, List.nodup_map_iff_inj_on (nodup_occurrencesOf schema)]
  constructor
  · -- The first section of such a chain has the numbered key as its own.
    intro hinj o ho hne o' ho' hchain
    have hfirst := hinj _ (first_mem ho') o ho (by simpa [Occurrence.key] using hchain)
    exact hne (congrArg Occurrence.number hfirst).symm
  · intro hclear o ho o' ho' hkey
    obtain heq | ⟨hne, hchain⟩ | ⟨hne, hchain⟩ := numbered_inj hkey
    · exact heq
    · exact absurd hchain (hclear o' ho' hne o ho)
    · exact absurd hchain (hclear o ho hne o' ho')

/-! ## Names without a number at the end -/

/-- Whether a name ends in a number sign with digits behind it. -/
def endsInNumber (name : String) : Bool :=
  let back := name.toList.reverse
  !(back.takeWhile Char.isDigit).isEmpty && (back.dropWhile Char.isDigit).head? == some '#'

/-- A name with digits behind a number sign at its end ends in a number. -/
theorem endsInNumber_of_append {name : String} {front digits : List Char} (hne : digits ≠ [])
    (hdigits : ∀ c ∈ digits, c.isDigit = true)
    (h : name.toList.reverse = digits ++ '#' :: front) : endsInNumber name = true := by
  have htake : name.toList.reverse.takeWhile Char.isDigit = digits := by
    rw [h, List.takeWhile_append_of_pos hdigits]
    simp
  have hdrop : name.toList.reverse.dropWhile Char.isDigit = '#' :: front := by
    rw [h, List.dropWhile_append_of_pos hdigits]
    simp
  simp [endsInNumber, htake, hdrop, hne]

/-- A chain ends in a number only if its last name does. -/
theorem endsInNumber_of_chainOf {parent : Option String} {name chain : String} {n : Nat}
    (hn : n ≠ 1) (h : chainOf parent name = numbered chain n) : endsInNumber name = true := by
  have hdigits : ∀ c ∈ (Nat.toDigits 10 n).reverse, c.isDigit = true := fun c hc =>
    Nat.isDigit_of_mem_toDigits (by decide) (by decide) (List.mem_reverse.1 hc)
  have hne : (Nat.toDigits 10 n).reverse ≠ [] := by simp
  have hback := congrArg (fun key => key.toList.reverse) h
  simp only [reverse_numbered chain hn] at hback
  cases parent with
  | none => exact endsInNumber_of_append hne hdigits hback
  | some key =>
    have hback : name.toList.reverse ++ ' ' :: '>' :: ' ' :: key.toList.reverse =
        (Nat.toDigits 10 n).reverse ++ '#' :: ' ' :: chain.toList.reverse := by
      simpa [chainOf, String.toList_append] using hback
    -- The space before the name is neither the number sign nor among the digits behind it.
    obtain ⟨between, hall, hrest⟩ | ⟨between, hname, hrest⟩ := List.append_eq_append_iff.1 hback
    · cases between with
      | nil => simp at hrest
      | cons c cs =>
        obtain ⟨rfl, -⟩ : ' ' = c ∧ _ := by simpa using hrest
        exact absurd (hdigits ' ' (hall ▸ by simp)) (by decide)
    · cases between with
      | nil => simp at hrest
      | cons c cs =>
        obtain ⟨rfl, -⟩ : '#' = c ∧ _ := by simpa using hrest
        exact endsInNumber_of_append hne hdigits hname

mutual

/-- A chain ends in the name of its section. -/
theorem exists_name_of_mem {o : Occurrence} (parent : Option String) (seen : Seen) :
    ∀ outline : Outline, o ∈ (occurrences parent seen outline).2 → ∃ above name,
      o.chain = chainOf above name ∧ name ∈ (Outline.visits outline).filterMap Outline.Visit.name?
  | .text _ _, h => by simp [occurrences] at h
  | .section path name fields inside, h => by
    simp only [occurrences, List.mem_cons] at h
    simp only [Outline.visits, List.filterMap_cons, Outline.Visit.name?_section, List.mem_cons]
    cases h with
    | inl h => exact ⟨parent, name, h ▸ rfl, .inl rfl⟩
    | inr h =>
      obtain ⟨above, below, hchain, hmem⟩ := exists_name_of_mem_all _ _ inside h
      exact ⟨above, below, hchain, .inr hmem⟩

/-- The chain of an occurrence ends in the name of a section among the outlines. -/
theorem exists_name_of_mem_all {o : Occurrence} (parent : Option String) (seen : Seen) :
    ∀ outlines : List Outline, o ∈ (occurrencesAll parent seen outlines).2 → ∃ above name,
      o.chain = chainOf above name ∧
        name ∈ (Outline.visitsOf outlines).filterMap Outline.Visit.name?
  | [], h => by simp [occurrencesAll] at h
  | first :: others, h => by
    simp only [occurrencesAll, List.mem_append] at h
    simp only [Outline.visitsOf, List.filterMap_append, List.mem_append]
    cases h with
    | inl h =>
      obtain ⟨above, name, hchain, hmem⟩ := exists_name_of_mem _ _ first h
      exact ⟨above, name, hchain, .inl hmem⟩
    | inr h =>
      obtain ⟨above, name, hchain, hmem⟩ := exists_name_of_mem_all _ _ others h
      exact ⟨above, name, hchain, .inr hmem⟩

end

/-- The names of the sections of a schema, in compile order. -/
def namesOf (schema : Json) : List String :=
  (Outline.visitsOf (Outline.ofSchema schema)).filterMap Outline.Visit.name?

/-- Names that do not end in a number leave no doubt. -/
theorem unambiguous_of_names (h : ∀ name ∈ namesOf schema, endsInNumber name = false) :
    Unambiguous schema := by
  intro o _ hne o' ho' hchain
  obtain ⟨above, name, hname, hmem⟩ := exists_name_of_mem_all _ _ _ ho'
  have hends := endsInNumber_of_chainOf hne (hname ▸ hchain)
  exact Bool.false_ne_true ((h name hmem).symm.trans hends)

end Snapshot

/-! ## Schemas beside themselves -/

namespace SchemaDiff

/-- A key that occurs is found. -/
theorem exists_find? {snapshots : List Snapshot} {s : Snapshot} (h : s ∈ snapshots) :
    ∃ found, find? snapshots s.key = some found := by
  refine Option.isSome_iff_exists.1 (List.find?_isSome.2 ⟨s, List.mem_reverse.2 h, ?_⟩)
  exact beq_self_eq_true s.key

/-- Snapshots do not differ from themselves exactly if those with the same key have the same
lines. -/
theorem isEmpty_self_iff (context : Nat) (snapshots : List Snapshot) :
    (ofSnapshots context snapshots snapshots).isEmpty = true ↔
      ∀ s ∈ snapshots, ∀ s' ∈ snapshots, s.key = s'.key → s.lines = s'.lines := by
  have hadded : (snapshots.filter fun new => !snapshots.any fun old => old.key == new.key) = [] :=
    List.filter_eq_nil_iff.2 fun s hs => by simpa using ⟨s, hs, rfl⟩
  simp only [isEmpty, ofSnapshots, hadded, List.map_nil, List.append_nil, List.isEmpty_iff,
    List.filterMap_eq_nil_iff]
  constructor
  · intro h
    have hfound : ∀ s ∈ snapshots, ∀ found, find? snapshots s.key = some found →
        s.lines = found.lines := by
      intro s hs found hfind
      by_contra hne
      simpa [hfind, compare?, hne] using h s hs
    intro s hs s' hs' hkey
    obtain ⟨found, hfind⟩ := exists_find? hs
    exact (hfound s hs found hfind).trans (hfound s' hs' found (hkey ▸ hfind)).symm
  · intro h s hs
    obtain ⟨found, hfind⟩ := exists_find? hs
    obtain ⟨hmem, hkey⟩ := mem_of_find? hfind
    simp [hfind, compare?, h s hs found hmem hkey.symm]

/-- Without a change there is nothing to count. -/
theorem stats_of_isEmpty {d : SchemaDiff} (h : d.isEmpty = true) : d.stats = .zero := by
  rw [stats, List.isEmpty_iff.1 h, List.foldl_nil]

/-- The keys of a schema are distinct exactly if no chain of names in it reads like a numbered
key, as none does without a name that ends in a number; and then the schema does not differ from
itself. -/
theorem ofSchemas_self (schema : Json) :
    (((Snapshot.ofSchema schema).map Snapshot.key).Nodup ↔ Snapshot.Unambiguous schema) ∧
      ((∀ name ∈ Snapshot.namesOf schema, Snapshot.endsInNumber name = false) →
        Snapshot.Unambiguous schema) ∧
      (Snapshot.Unambiguous schema → ∀ context,
        (ofSchemas context schema schema).isEmpty = true ∧
          (ofSchemas context schema schema).stats = .zero) := by
  refine ⟨Snapshot.nodup_keys_iff schema, Snapshot.unambiguous_of_names, fun hclear context => ?_⟩
  have hempty : (ofSchemas context schema schema).isEmpty = true := by
    refine (isEmpty_self_iff context _).2 fun s hs s' hs' hkey => ?_
    have hsame := List.inj_on_of_nodup_map ((Snapshot.nodup_keys_iff schema).2 hclear) hs hs' hkey
    rw [hsame]
  exact ⟨hempty, stats_of_isEmpty hempty⟩

/-- Items that repeat, with the same names inside. -/
def itemList : Json :=
  .array [
    .object [("name", .string "item"), ("content", .object [("lead", .string "a")])],
    .object [("name", .string "item"), ("content", .object [("lead", .string "b")])],
    .object [("name", .string "item"), ("content", .object [("lead", .string "a")])]]

/-- Items that repeat have distinct keys, and do not differ from themselves. -/
theorem ofSchemas_itemList :
    (∀ name ∈ Snapshot.namesOf itemList, Snapshot.endsInNumber name = false) ∧
      Snapshot.Unambiguous itemList ∧ ((Snapshot.ofSchema itemList).map Snapshot.key).Nodup ∧
      (ofSchemas 3 itemList itemList).isEmpty = true ∧
      (ofSchemas 3 itemList itemList).stats = .zero := by
  have hnames : ∀ name ∈ Snapshot.namesOf itemList, Snapshot.endsInNumber name = false := by
    decide +kernel
  obtain ⟨hkeys, hclear, hself⟩ := ofSchemas_self itemList
  exact ⟨hnames, hclear hnames, hkeys.2 (hclear hnames), hself (hclear hnames) 3⟩

/-- Two items, and a section that is called like the second one is numbered. -/
def takenNumber : Json :=
  .array [
    .object [("name", .string "item"), ("content", .string "a")],
    .object [("name", .string "item"), ("content", .string "b")],
    .object [("name", .string "item #2"), ("content", .string "c")]]

/-- Where a section is called like a numbered one, two have the same key, and the schema differs
from itself. -/
theorem ofSchemas_takenNumber_ne :
    ¬ ((Snapshot.ofSchema takenNumber).map Snapshot.key).Nodup ∧
      (ofSchemas 3 takenNumber takenNumber).isEmpty = false ∧
      (ofSchemas 3 takenNumber takenNumber).stats ≠ .zero := by
  decide +kernel

end SchemaDiff

end ViewSchema
