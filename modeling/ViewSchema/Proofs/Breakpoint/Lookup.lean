import ViewSchema.Breakpoint
import ViewSchema.Proofs.Json.Fields

/-!
# Looking up in ascending tables

A table neither sorts nor checks its entries, and its look-ups read them in different ways: the
last threshold that a width reaches, the first entry of a name, the names up to one.  Where names
are distinct and thresholds ascend they fit together, since the entries that a width reaches are
the first ones.

Main results:

- Definition `BreakpointTable.Ascending`: what a table expects of its entries.
- Theorem `BreakpointTable.Ascending.reached_prefix`: the entries that a width reaches come first.
- Theorem `BreakpointTable.Ascending.upTo_eq`: the names up to the one of a width.
- Theorem `BreakpointTable.ascending_ofJson?`: a table that is read keeps the order of its object.
- Theorem `BreakpointTable.lookups_agree`: how the look-ups fit together, at one width and at two.
-/

namespace ViewSchema

namespace BreakpointTable

variable {table : BreakpointTable} {width wider threshold : Nat} {name : String}

/-- No name comes twice, and no threshold is below an earlier one. -/
structure Ascending (table : BreakpointTable) : Prop where
  distinct : Fields.Distinct table.entries
  sorted : table.entries.Pairwise fun earlier later => earlier.2 ≤ later.2

/-- The entries whose thresholds a width reaches. -/
def reached (table : BreakpointTable) (width : Nat) : List (String × Nat) :=
  table.entries.filter fun entry => entry.2 ≤ width

theorem mem_reached {entry : String × Nat} :
    entry ∈ table.reached width ↔ entry ∈ table.entries ∧ entry.2 ≤ width := by
  simp [reached]

/-! ## The name of a width -/

/-- The name of a width is that of the last entry it reaches. -/
theorem resolve?_eq_some_iff :
    table.resolve? width = some name ↔ ∃ before threshold after,
      table.entries = before ++ (name, threshold) :: after ∧ threshold ≤ width ∧
        ∀ later ∈ after, width < later.2 := by
  unfold resolve?
  simp only [List.getLast?_filter, Option.map_eq_some_iff, List.find?_eq_some_iff_append]
  constructor
  · rintro ⟨⟨_, threshold⟩, ⟨hle, after, before, hreverse, hafter⟩, rfl⟩
    refine ⟨before.reverse, threshold, after.reverse, ?_, by simpa using hle, ?_⟩
    · rw [← List.reverse_reverse table.entries, hreverse]
      simp
    · intro later hlater
      simpa using hafter later (List.mem_reverse.1 hlater)
  · rintro ⟨before, threshold, after, hentries, hle, hafter⟩
    refine ⟨(name, threshold), ⟨by simpa using hle, after.reverse, before.reverse, ?_, ?_⟩, rfl⟩
    · simp [hentries]
    · intro later hlater
      simpa using hafter later (List.mem_reverse.1 hlater)

theorem resolve?_eq_none_iff : table.resolve? width = none ↔ table.reached width = [] := by
  unfold resolve? reached
  rw [Option.map_eq_none_iff, List.getLast?_eq_none_iff]

/-- A width that reaches further has a name if the smaller one has. -/
theorem exists_resolve?_of_le (hname : table.resolve? width = some name) (hle : width ≤ wider) :
    ∃ wide, table.resolve? wider = some wide := by
  obtain ⟨before, threshold, after, hentries, hreached, -⟩ := resolve?_eq_some_iff.1 hname
  rw [← Option.isSome_iff_exists, Option.isSome_iff_ne_none]
  intro hnone
  have hmem : (name, threshold) ∈ table.reached wider :=
    mem_reached.2 ⟨by simp [hentries], Nat.le_trans hreached hle⟩
  rw [resolve?_eq_none_iff.1 hnone] at hmem
  cases hmem

/-! ## Names up to one -/

/-- The names up to one are names of the table. -/
theorem mem_names_of_mem_upTo {other : String} (h : name ∈ table.upTo other) :
    name ∈ table.names := by
  unfold upTo at h
  split at h
  · exact List.mem_of_mem_take h
  · cases h

/-- There are none up to a name that is unknown. -/
theorem upTo_of_not_contains (h : table.contains name = false) : table.upTo name = [] := by
  have hmem : name ∉ table.names := by simpa [contains] using h
  have hnone : table.names.findIdx? (· == name) = none := by
    rw [List.findIdx?_eq_none_iff]
    intro other hother
    rw [beq_eq_false_iff_ne]
    rintro rfl
    exact hmem hother
  rw [upTo, hnone]

/-- The names up to one that does not come before are those before it, and itself. -/
theorem upTo_append {before after : List (String × Nat)}
    (hentries : table.entries = before ++ (name, threshold) :: after)
    (hfresh : name ∉ Fields.names before) :
    table.upTo name = Fields.names (before ++ [(name, threshold)]) := by
  have hplace : table.names.findIdx? (· == name) = some before.length := by
    rw [names, List.findIdx?_map, hentries]
    exact Fields.findIdx?_append_cons before after hfresh
  have hlength : before.length + 1 = (before ++ [(name, threshold)]).length := by simp
  have hsplit : table.entries = (before ++ [(name, threshold)]) ++ after := by simp [hentries]
  rw [upTo, hplace]
  dsimp only
  rw [names, hsplit, ← List.map_take, hlength, List.take_left' rfl]
  rfl

/-- Where thresholds ascend, the entries that a width reaches stand before the other ones. -/
theorem filter_append_filter {entries : List (String × Nat)}
    (hsorted : entries.Pairwise fun earlier later => earlier.2 ≤ later.2) (width : Nat) :
    (entries.filter fun entry => entry.2 ≤ width) ++
      (entries.filter fun entry => width < entry.2) = entries := by
  induction entries with
  | nil => rfl
  | cons entry rest ih =>
    rw [List.pairwise_cons] at hsorted
    by_cases hle : entry.2 ≤ width
    · have hnot : ¬ width < entry.2 := by omega
      rw [List.filter_cons_of_pos (by simpa using hle),
        List.filter_cons_of_neg (by simpa using hnot), List.cons_append, ih hsorted.2]
    · -- From the first entry on that is not reached, none is.
      have hall : ∀ later ∈ entry :: rest, width < later.2 := by
        intro later hlater
        rcases List.mem_cons.1 hlater with rfl | hrest
        · omega
        · have := hsorted.1 later hrest
          omega
      have hnone : (entry :: rest).filter (fun entry => entry.2 ≤ width) = [] := by
        rw [List.filter_eq_nil_iff]
        intro later hlater
        simpa using hall later hlater
      have hself : (entry :: rest).filter (fun entry => width < entry.2) = entry :: rest := by
        rw [List.filter_eq_self]
        intro later hlater
        simpa using hall later hlater
      rw [hnone, hself, List.nil_append]

/-- The entries that a width reaches end with the one that names it. -/
theorem exists_reached_eq (hname : table.resolve? width = some name) :
    ∃ before threshold, table.reached width = before ++ [(name, threshold)] := by
  unfold resolve? at hname
  obtain ⟨⟨_, threshold⟩, hlast, rfl⟩ := Option.map_eq_some_iff.1 hname
  obtain ⟨before, hreached⟩ := List.getLast?_eq_some_iff.1 hlast
  exact ⟨before, threshold, hreached⟩

namespace Ascending

theorem reached_prefix (h : table.Ascending) (width : Nat) :
    table.reached width <+: table.entries :=
  ⟨_, filter_append_filter h.sorted width⟩

/-- What a width reaches comes first in what a wider one reaches. -/
theorem reached_prefix_reached (h : table.Ascending) (hle : width ≤ wider) :
    table.reached width <+: table.reached wider := by
  refine List.prefix_of_prefix_length_le (h.reached_prefix width) (h.reached_prefix wider) ?_
  unfold reached
  rw [← List.countP_eq_length_filter, ← List.countP_eq_length_filter]
  refine List.countP_mono_left fun entry _ hentry => ?_
  simp only [decide_eq_true_eq] at hentry ⊢
  exact Nat.le_trans hentry hle

/-- A width has no name if there are none, or if it does not reach the first threshold. -/
theorem resolve?_eq_none_iff (h : table.Ascending) :
    table.resolve? width = none ↔ table.entries = [] ∨
      ∃ first rest, table.entries = first :: rest ∧ width < first.2 := by
  rw [BreakpointTable.resolve?_eq_none_iff]
  cases hentries : table.entries with
  | nil => simp [reached, hentries]
  | cons first rest =>
    have hsorted := h.sorted
    rw [hentries, List.pairwise_cons] at hsorted
    simp only [reached, hentries, List.filter_eq_nil_iff, List.mem_cons, reduceCtorEq, false_or]
    constructor
    · intro hnone
      exact ⟨first, rest, rfl, by simpa using hnone first (.inl rfl)⟩
    · rintro ⟨_, _, heq, hlt⟩ entry hentry
      cases heq
      rcases hentry with rfl | hrest
      · simpa using hlt
      · have := hsorted.1 entry hrest
        simp only [decide_eq_true_eq, Nat.not_le]
        omega

/-- The names up to that of a width are those that the width reaches. -/
theorem upTo_eq (h : table.Ascending) (hname : table.resolve? width = some name) :
    table.upTo name = Fields.names (table.reached width) := by
  obtain ⟨before, threshold, hreached⟩ := exists_reached_eq hname
  obtain ⟨after, hentries⟩ := h.reached_prefix width
  rw [hreached, List.append_assoc, List.singleton_append] at hentries
  have hdistinct := h.distinct
  rw [← hentries] at hdistinct
  have hfresh : name ∉ Fields.names before := by
    intro hmem
    have hnodup : (Fields.names before ++ name :: Fields.names after).Nodup := by
      simpa [Fields.Distinct, Fields.names] using hdistinct
    exact (List.nodup_append.1 hnodup).2.2 _ hmem _ List.mem_cons_self rfl
  rw [hreached]
  exact upTo_append hentries.symm hfresh

/-- The threshold of the name of a width is the greatest one that the width reaches. -/
theorem exists_threshold? (h : table.Ascending) (hname : table.resolve? width = some name) :
    ∃ threshold, table.threshold? name = some threshold ∧ threshold ≤ width ∧
      ∀ entry ∈ table.entries, entry.2 ≤ width → entry.2 ≤ threshold := by
  obtain ⟨before, threshold, hreached⟩ := exists_reached_eq hname
  have hlast : (name, threshold) ∈ table.reached width := by simp [hreached]
  obtain ⟨hmem, hle⟩ := mem_reached.1 hlast
  refine ⟨threshold, (Fields.lookup_eq_some_iff h.distinct).2 hmem, hle, ?_⟩
  intro entry hentry hwidth
  have hsorted : (table.reached width).Pairwise fun earlier later => earlier.2 ≤ later.2 :=
    h.sorted.filter _
  have hin : entry ∈ table.reached width := mem_reached.2 ⟨hentry, hwidth⟩
  rw [hreached] at hsorted hin
  rcases List.mem_append.1 hin with hbefore | hself
  · exact (List.pairwise_append.1 hsorted).2.2 entry hbefore _ List.mem_cons_self
  · exact Nat.le_of_eq (congrArg Prod.snd (List.mem_singleton.1 hself))

end Ascending

/-! ## Tables that are read -/

/-- The threshold that a value gives, if it gives one. -/
def thresholdOf (value : Json) : Option Nat := value.nat?.map fun w => min w maxThreshold

/-- A table that is read from an object has the thresholds of its fields. -/
theorem ofJson?_object (fields : List (String × Json)) :
    ofJson? (.object fields) = some ⟨fields.filterMap fun field =>
      (thresholdOf field.2).map fun threshold => (field.1, threshold)⟩ := by
  simp only [ofJson?, Json.object?, Option.map_some, thresholdOf, Option.map_map,
    Function.comp_def]

/-- A table read from an object in which natural numbers do not go down is ascending: to skip the
other values and to cut off thresholds does not change their order. -/
theorem ascending_ofJson? {fields : List (String × Json)} (hdistinct : Fields.Distinct fields)
    (hsorted : (fields.filterMap fun field => field.2.nat?).Pairwise (· ≤ ·)) :
    ∃ table, ofJson? (.object fields) = some table ∧ table.Ascending ∧
      ∀ name, table.threshold? name =
        ((fields.lookup name).bind Json.nat?).map fun w => min w maxThreshold := by
  refine ⟨_, ofJson?_object fields, ⟨hdistinct.filterMap thresholdOf, ?_⟩, ?_⟩
  · rw [List.pairwise_filterMap] at hsorted ⊢
    refine hsorted.imp ?_
    intro earlier later hle entry hentry next hnext
    obtain ⟨low, hlow, rfl⟩ := Option.map_eq_some_iff.1 hentry
    obtain ⟨high, hhigh, rfl⟩ := Option.map_eq_some_iff.1 hnext
    obtain ⟨v, hv, rfl⟩ := Option.map_eq_some_iff.1 hlow
    obtain ⟨w, hw, rfl⟩ := Option.map_eq_some_iff.1 hhigh
    have := hle v hv w hw
    dsimp only
    omega
  · intro name
    rw [threshold?, Fields.lookup_filterMap hdistinct, Option.map_bind]
    rfl

/-! ## How the look-ups fit together -/

/-- In an ascending table, at every width: its name is that of the last entry it reaches, and there
is none exactly if the table is empty or the first threshold is not reached; the threshold of the
name is the greatest one that is reached, and the names up to it are those that are reached, in
order. So at a wider width the threshold is no smaller and the names go on from those of the smaller
one. A table is ascending if it is read from an object whose natural numbers do not go down,
whatever else the object has; it has their thresholds, cut off where they are too large. -/
theorem lookups_agree :
    (∀ (table : BreakpointTable) (width : Nat), table.Ascending →
      (∀ name, table.resolve? width = some name ↔ ∃ before threshold after,
        table.entries = before ++ (name, threshold) :: after ∧ threshold ≤ width ∧
          ∀ later ∈ after, width < later.2) ∧
      (table.resolve? width = none ↔ table.entries = [] ∨
        ∃ first rest, table.entries = first :: rest ∧ width < first.2) ∧
      ∀ name, table.resolve? width = some name →
        table.upTo name =
          (table.entries.filter fun entry => entry.2 ≤ width).map Prod.fst ∧
        ∃ threshold, table.threshold? name = some threshold ∧ threshold ≤ width ∧
          (∀ entry ∈ table.entries, entry.2 ≤ width → entry.2 ≤ threshold) ∧
          ∀ wider, width ≤ wider → ∃ wide wideThreshold, table.resolve? wider = some wide ∧
            table.threshold? wide = some wideThreshold ∧ threshold ≤ wideThreshold ∧
            table.upTo name <+: table.upTo wide) ∧
    ∀ fields : List (String × Json), Fields.Distinct fields →
      (fields.filterMap fun field => field.2.nat?).Pairwise (· ≤ ·) →
      ∃ table, ofJson? (.object fields) = some table ∧ table.Ascending ∧
        ∀ name, table.threshold? name =
          ((fields.lookup name).bind Json.nat?).map fun w => min w maxThreshold := by
  refine ⟨?_, fun fields hdistinct hsorted => ascending_ofJson? hdistinct hsorted⟩
  intro table width h
  refine ⟨fun name => resolve?_eq_some_iff, h.resolve?_eq_none_iff, ?_⟩
  intro name hname
  refine ⟨h.upTo_eq hname, ?_⟩
  obtain ⟨threshold, hthreshold, hle, hgreatest⟩ := h.exists_threshold? hname
  refine ⟨threshold, hthreshold, hle, hgreatest, ?_⟩
  intro wider hwider
  obtain ⟨wide, hwide⟩ := exists_resolve?_of_le hname hwider
  obtain ⟨wideThreshold, hwideThreshold, -, hwideGreatest⟩ := h.exists_threshold? hwide
  refine ⟨wide, wideThreshold, hwide, hwideThreshold, ?_, ?_⟩
  · exact hwideGreatest (name, threshold) (Fields.mem_of_lookup hthreshold)
      (Nat.le_trans hle hwider)
  · rw [h.upTo_eq hname, h.upTo_eq hwide]
    exact (h.reached_prefix_reached hwider).map Prod.fst

/-- Thresholds with two entries that are skipped, and two that are cut off to the same one. -/
def screens : List (String × Json) :=
  [("hidden", .int (-1)), ("phone", .int 0), ("fluid", .string "auto"), ("desk", .int 768),
    ("wall", .int 5000000000), ("dome", .int 6000000000)]

/-- The last of the screens whose thresholds are cut off names the widest one, and the names up to
it go on from those up to a desk. -/
theorem lookups_agree_screens :
    ∃ table, ofJson? (.object screens) = some table ∧ table.Ascending ∧
      table.resolve? 1000 = some "desk" ∧ table.threshold? "desk" = some 768 ∧
      table.upTo "desk" = ["phone", "desk"] ∧
      ∃ wide wideThreshold, table.resolve? maxThreshold = some wide ∧
        table.threshold? wide = some wideThreshold ∧ 768 ≤ wideThreshold ∧
        ["phone", "desk"] <+: table.upTo wide := by
  have hdistinct : Fields.Distinct screens := by
    unfold Fields.Distinct
    decide
  obtain ⟨table, hread, hascending, hthreshold⟩ :=
    lookups_agree.2 screens hdistinct (by decide)
  have hname : table.resolve? 1000 = some "desk" := by
    cases hread
    rfl
  obtain ⟨hupTo, threshold, hfound, -, -, hwider⟩ :=
    (lookups_agree.1 table 1000 hascending).2.2 "desk" hname
  have hdesk : table.threshold? "desk" = some 768 := hthreshold "desk"
  have hnames : table.upTo "desk" = ["phone", "desk"] := by
    rw [hupTo]
    cases hread
    rfl
  rw [hdesk] at hfound
  cases hfound
  exact ⟨table, hread, hascending, hname, hdesk, hnames,
    hnames ▸ hwider maxThreshold (by decide)⟩

end BreakpointTable

end ViewSchema
