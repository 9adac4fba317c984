import Mathlib.Data.List.Nodup
import Mathlib.Data.List.TakeWhile
import ViewSchema.Proofs.Json.Fields
import ViewSchema.Proofs.Text.Segments
import ViewSchema.Route.Pattern

/-!
# Matching and building paths

A pattern is filled in by putting a value in the place of each of its names, and any number of
segments in the place of the rest.  Matching is the inverse: a path has the values that fill the
pattern in to its segments, and a path that is no such filling does not match.

Main results:

- Theorem `RoutePattern.matchSegments_eq_some_iff`: matching segments one by one collects exactly
  the values that fill the pattern in to them.
- Theorem `RoutePattern.match?_eq_some_iff`: a path matches with the values that build it, whatever
  slashes stand around its segments and whatever follows a question or number sign.
-/

namespace ViewSchema

namespace RoutePattern

/-! ## Patterns and what fills them in -/

/-- The name that a segment of a pattern gives a value to. -/
def name? (segment : String) : Option String :=
  if segment = restSegment then some restSegment else param? segment

/-- The names of a pattern, in order. -/
def names (segments : List String) : List String := segments.filterMap name?

/-- Patterns that can be filled in and read back: names are distinct, the rest stands at the end
and shares its name with no other segment, and no literal segment holds what ends a path. -/
structure WellFormed (segments : List String) : Prop where
  distinct : (segments.filterMap param?).Nodup
  rest_not_named : restSegment ∉ segments.filterMap param?
  rest_last : restSegment ∉ segments.dropLast
  literal : ∀ segment ∈ segments, param? segment = none →
    '?' ∉ segment.toList ∧ '#' ∉ segment.toList

/-- What may stand in a path in the place of a name. -/
def IsValue (text : String) : Prop :=
  IsSegment text ∧ '?' ∉ text.toList ∧ '#' ∉ text.toList

/-- Values for the names of a pattern: a text for each, and for the rest any number of texts with
slashes between them. -/
inductive Fits : List String → List (String × Json) → Prop
  | none : Fits [] []
  | rest {texts} (h : ∀ text ∈ texts, IsValue text) :
      Fits [restSegment] [(restSegment, .string (String.intercalate "/" texts))]
  | param {segment name text segments params} (hname : param? segment = some name)
      (h : IsValue text) (others : Fits segments params) :
      Fits (segment :: segments) ((name, .string text) :: params)
  | literal {segment segments params} (hne : segment ≠ restSegment)
      (hname : param? segment = none) (others : Fits segments params) :
      Fits (segment :: segments) params

/-- The segments of a path in the place of one of a pattern. -/
def fill (params : List (String × Json)) (segment : String) : List String :=
  if segment = restSegment then pathSegments ((Fields.string? params restSegment).getD "")
  else
    match param? segment with
    | some name => [(Fields.string? params name).getD ""]
    | none => [segment]

/-- The segments of the path that a pattern is filled in to. -/
def build (params : List (String × Json)) (segments : List String) : List String :=
  segments.flatMap (fill params)

/-- Paths with given segments: any slashes may stand around them, and anything may follow behind
a question or number sign. -/
def LeadsAlong (segments : List String) (path : String) : Prop :=
  ∃ front back, path.toList = front ++ back ∧ Spells segments front ∧
    ∀ c, back.head? = some c → c = '?' ∨ c = '#'

/-! ## Names -/

/-- The segment for the rest is not read as a name. -/
theorem param?_restSegment : param? restSegment = none := by decide

/-- Any other segment has the name that is read from it. -/
theorem name?_of_ne {segment : String} (h : segment ≠ restSegment) :
    name? segment = param? segment := if_neg h

/-- A segment that a name is read from is not the one for the rest. -/
theorem ne_restSegment_of_param? {segment name : String} (h : param? segment = some name) :
    segment ≠ restSegment := by
  rintro rfl
  rw [param?_restSegment] at h
  cases h

/-- A named segment adds its name. -/
theorem names_cons_param {segment name : String} (h : param? segment = some name)
    (segments : List String) : names (segment :: segments) = name :: names segments := by
  rw [names, List.filterMap_cons_some]
  · rfl
  · rw [name?_of_ne (ne_restSegment_of_param? h), h]

/-- A literal segment adds no name. -/
theorem names_cons_literal {segment : String} (hne : segment ≠ restSegment)
    (h : param? segment = none) (segments : List String) :
    names (segment :: segments) = names segments := by
  rw [names, List.filterMap_cons_none]
  · rfl
  · rw [name?_of_ne hne, h]

/-- The rest takes any number of texts under its own name. -/
theorem fits_rest_iff {params : List (String × Json)} :
    Fits [restSegment] params ↔ ∃ texts, (∀ text ∈ texts, IsValue text) ∧
      params = [(restSegment, .string (String.intercalate "/" texts))] := by
  constructor
  · intro h
    cases h with
    | rest htexts => exact ⟨_, htexts, rfl⟩
    | param hname => exact absurd rfl (ne_restSegment_of_param? hname)
    | literal hne => exact absurd rfl hne
  · rintro ⟨texts, htexts, rfl⟩
    exact .rest htexts

/-- A named segment takes one text, in front of what the others take. -/
theorem fits_cons_param_iff {segment name : String} (hname : param? segment = some name)
    {segments : List String} {params : List (String × Json)} :
    Fits (segment :: segments) params ↔ ∃ text others, IsValue text ∧ Fits segments others ∧
      params = (name, .string text) :: others := by
  constructor
  · intro h
    cases h with
    | rest => exact absurd rfl (ne_restSegment_of_param? hname)
    | param hname' htext hothers =>
      cases hname.symm.trans hname'
      exact ⟨_, _, htext, hothers, rfl⟩
    | literal _ hnone => exact absurd (hnone.symm.trans hname) (by simp)
  · rintro ⟨text, others, htext, hothers, rfl⟩
    exact .param hname htext hothers

/-- A literal segment takes nothing. -/
theorem fits_cons_literal_iff {segment : String} (hne : segment ≠ restSegment)
    (hname : param? segment = none) {segments : List String} {params : List (String × Json)} :
    Fits (segment :: segments) params ↔ Fits segments params := by
  constructor
  · intro h
    cases h with
    | rest => exact absurd rfl hne
    | param hsome => exact absurd (hname.symm.trans hsome) (by simp)
    | literal _ _ hothers => exact hothers
  · exact .literal hne hname

/-- Values are given to the names of a pattern, in order. -/
theorem Fits.names_eq {segments : List String} {params : List (String × Json)}
    (h : Fits segments params) : Fields.names params = names segments := by
  induction h with
  | none => rfl
  | rest _ => rfl
  | param hname _ _ ih => rw [names_cons_param hname, Fields.names_cons, ih]
  | literal hne hname _ ih => rw [names_cons_literal hne hname, ih]

namespace WellFormed

variable {segment : String} {segments : List String}

/-- A pattern with a rest somewhere has it at its end. -/
theorem eq_nil_of_rest (h : WellFormed (restSegment :: segments)) : segments = [] := by
  cases segments with
  | nil => rfl
  | cons next others => exact absurd List.mem_cons_self h.rest_last

/-- A pattern without its first segment can be filled in and read back, too. -/
theorem tail (h : WellFormed (segment :: segments)) : WellFormed segments where
  distinct := h.distinct.sublist ((List.sublist_cons_self _ _).filterMap _)
  rest_not_named hmem :=
    h.rest_not_named (((List.sublist_cons_self _ _).filterMap _).subset hmem)
  rest_last hmem := by
    cases segments with
    | nil => simp at hmem
    | cons next others => exact h.rest_last (List.mem_cons_of_mem _ hmem)
  literal other hother := h.literal other (List.mem_cons_of_mem _ hother)

/-- The names of a pattern are distinct, that of the rest among them. -/
theorem nodup_names (h : WellFormed segments) : (names segments).Nodup := by
  induction segments with
  | nil => exact List.nodup_nil
  | cons segment others ih =>
    by_cases hrest : segment = restSegment
    · subst hrest
      rw [h.eq_nil_of_rest]
      exact List.nodup_singleton _
    · cases hname : param? segment with
      | none =>
        rw [names_cons_literal hrest hname]
        exact ih h.tail
      | some name =>
        rw [names_cons_param hname]
        refine List.nodup_cons.2 ⟨fun hmem => ?_, ih h.tail⟩
        have hdistinct := h.distinct
        have hnot := h.rest_not_named
        rw [List.filterMap_cons_some hname] at hdistinct hnot
        obtain ⟨other, hother, hfound⟩ := List.mem_filterMap.1 hmem
        unfold name? at hfound
        split at hfound
        · cases hfound
          exact hnot List.mem_cons_self
        · exact (List.nodup_cons.1 hdistinct).1 (List.mem_filterMap.2 ⟨other, hother, hfound⟩)

end WellFormed

/-! ## Building -/

section Building

variable {params : List (String × Json)} {name : String} {segments : List String}

/-- The first of some values is found under its name. -/
theorem string?_cons_self (text : String) :
    Fields.string? ((name, .string text) :: params) name = some text := by
  simp [Fields.string?, Json.string?]

/-- Under other names the first value is not looked at. -/
theorem string?_cons_of_ne {other : String} (h : other ≠ name) (value : Json) :
    Fields.string? ((name, value) :: params) other = Fields.string? params other := by
  simp [Fields.string?, Fields.lookup_cons, h]

/-- A name that a segment does not have is not asked for. -/
theorem fill_cons {segment : String} (h : name? segment ≠ some name) (value : Json) :
    fill ((name, value) :: params) segment = fill params segment := by
  unfold fill
  split
  · rename_i hrest
    rw [string?_cons_of_ne]
    rintro rfl
    exact h (if_pos hrest)
  · rename_i hne
    cases hname : param? segment with
    | none => rfl
    | some other =>
      have hother : other ≠ name := by
        rintro rfl
        exact h (by rw [name?_of_ne hne, hname])
      simp only [string?_cons_of_ne hother]

/-- A value whose name a pattern does not have changes nothing. -/
theorem build_cons_of_not_mem (h : name ∉ names segments) (value : Json) :
    build ((name, value) :: params) segments = build params segments := by
  refine List.flatMap_congr fun segment hsegment => fill_cons (fun hname => h ?_) value
  exact List.mem_filterMap.2 ⟨segment, hsegment, hname⟩

/-- The rest is filled in with all of its texts. -/
theorem build_rest {texts : List String} (h : ∀ text ∈ texts, IsSegment text) :
    build [(restSegment, .string (String.intercalate "/" texts))] [restSegment] = texts := by
  simp only [build, List.flatMap_singleton, fill, if_pos, string?_cons_self, Option.getD_some]
  exact pathSegments_intercalate h

/-- A named segment is filled in with its text. -/
theorem build_cons_param {segment : String} (hname : param? segment = some name)
    (h : name ∉ names segments) (text : String) :
    build ((name, .string text) :: params) (segment :: segments) =
      text :: build params segments := by
  have hfirst : fill ((name, .string text) :: params) segment = [text] := by
    simp only [fill, if_neg (ne_restSegment_of_param? hname), hname, string?_cons_self,
      Option.getD_some]
  rw [← build_cons_of_not_mem h, build, List.flatMap_cons, hfirst]
  rfl

/-- A literal segment stands for itself. -/
theorem build_cons_literal {segment : String} (hne : segment ≠ restSegment)
    (hname : param? segment = none) :
    build params (segment :: segments) = segment :: build params segments := by
  have hfirst : fill params segment = [segment] := by
    simp only [fill, if_neg hne, hname]
  rw [build, List.flatMap_cons, hfirst]
  rfl

end Building

/-- A pattern is filled in to segments that hold nothing which ends a path. -/
theorem Fits.isValue_of_mem_build {segments : List String} {params : List (String × Json)}
    (h : Fits segments params) (hwell : WellFormed segments)
    (hsegments : ∀ s ∈ segments, IsSegment s) : ∀ s ∈ build params segments, IsValue s := by
  induction h with
  | none => simp [build]
  | rest htexts =>
    rw [build_rest fun text hmem => (htexts text hmem).1]
    exact htexts
  | param hname htext _ ih =>
    have hfresh := hwell.nodup_names
    rw [names_cons_param hname] at hfresh
    rw [build_cons_param hname (List.nodup_cons.1 hfresh).1]
    exact List.forall_mem_cons.2
      ⟨htext, ih hwell.tail (List.forall_mem_cons.1 hsegments).2⟩
  | literal hne hname _ ih =>
    rw [build_cons_literal hne hname]
    obtain ⟨hfirst, hothers⟩ := List.forall_mem_cons.1 hsegments
    exact List.forall_mem_cons.2
      ⟨⟨hfirst, hwell.literal _ List.mem_cons_self hname⟩, ih hwell.tail hothers⟩

/-! ## Matching -/

section Matching

variable {before result : List (String × Json)} {segment name : String}
  {segments actual : List String}

/-- The rest takes all segments that are left. -/
theorem matchSegments_rest (hfresh : restSegment ∉ Fields.names before) :
    matchSegments before (restSegment :: segments) actual =
      some (before ++ [(restSegment, .string (String.intercalate "/" actual))]) := by
  rw [← Fields.set_of_not_mem hfresh]
  cases actual <;> simp [matchSegments]

/-- A name takes one segment. -/
theorem matchSegments_param (hname : param? segment = some name)
    (hfresh : name ∉ Fields.names before) :
    matchSegments before (segment :: segments) actual = some result ↔
      ∃ text others, actual = text :: others ∧
        matchSegments (before ++ [(name, .string text)]) segments others = some result := by
  cases actual with
  | nil => simp [matchSegments, ne_restSegment_of_param? hname]
  | cons first others =>
    simp only [matchSegments, if_neg (ne_restSegment_of_param? hname), hname,
      Fields.set_of_not_mem hfresh]
    constructor
    · intro h
      exact ⟨first, others, rfl, h⟩
    · rintro ⟨_, _, ⟨⟩, h⟩
      exact h

/-- A literal segment takes itself. -/
theorem matchSegments_literal (hne : segment ≠ restSegment) (hname : param? segment = none) :
    matchSegments before (segment :: segments) actual = some result ↔
      ∃ others, actual = segment :: others ∧
        matchSegments before segments others = some result := by
  cases actual with
  | nil => simp [matchSegments, hne]
  | cons first others =>
    simp only [matchSegments, if_neg hne, hname, Option.ite_none_right_eq_some]
    constructor
    · rintro ⟨rfl, h⟩
      exact ⟨others, rfl, h⟩
    · rintro ⟨_, ⟨⟩, h⟩
      exact ⟨rfl, h⟩

/-- Matching segments one by one adds the values that fill the pattern in to them. -/
theorem matchSegments_eq_some_iff (hwell : WellFormed segments)
    (hfresh : (Fields.names before ++ names segments).Nodup) (hactual : ∀ s ∈ actual, IsValue s) :
    matchSegments before segments actual = some result ↔
      ∃ params, result = before ++ params ∧ Fits segments params ∧
        actual = build params segments := by
  induction segments generalizing before actual with
  | nil =>
    cases actual with
    | nil =>
      constructor
      · rintro ⟨⟩
        exact ⟨[], (List.append_nil _).symm, .none, rfl⟩
      · rintro ⟨_, rfl, ⟨⟩, -⟩
        rw [List.append_nil, matchSegments]
    | cons first others =>
      constructor
      · rintro ⟨⟩
      · rintro ⟨_, -, -, ⟨⟩⟩
  | cons segment segments ih =>
    have hseparate := (List.nodup_append.1 hfresh).2.2
    by_cases hrest : segment = restSegment
    · subst hrest
      cases hwell.eq_nil_of_rest
      rw [matchSegments_rest fun hmem => hseparate _ hmem _ List.mem_cons_self rfl,
        Option.some.injEq]
      constructor
      · rintro rfl
        exact ⟨_, rfl, .rest hactual, (build_rest fun text hmem => (hactual text hmem).1).symm⟩
      · rintro ⟨_, rfl, hfits, rfl⟩
        obtain ⟨texts, htexts, rfl⟩ := fits_rest_iff.1 hfits
        rw [build_rest fun text hmem => (htexts text hmem).1]
    · cases hname : param? segment with
      | none =>
        rw [names_cons_literal hrest hname] at hfresh
        simp only [matchSegments_literal hrest hname, fits_cons_literal_iff hrest hname,
          build_cons_literal hrest hname]
        constructor
        · rintro ⟨others, rfl, h⟩
          have hothers := (List.forall_mem_cons.1 hactual).2
          obtain ⟨params, rfl, hfits, rfl⟩ := (ih hwell.tail hfresh hothers).1 h
          exact ⟨params, rfl, hfits, rfl⟩
        · rintro ⟨params, rfl, hfits, rfl⟩
          have hothers := (List.forall_mem_cons.1 hactual).2
          exact ⟨_, rfl, (ih hwell.tail hfresh hothers).2 ⟨params, rfl, hfits, rfl⟩⟩
      | some name =>
        rw [names_cons_param hname] at hfresh hseparate
        have hnew : name ∉ names segments :=
          (List.nodup_cons.1 (List.nodup_append.1 hfresh).2.1).1
        have hnext : ∀ text : String, (Fields.names (before ++ [(name, .string text)]) ++
            names segments).Nodup := fun text => by simpa [Fields.names] using hfresh
        rw [matchSegments_param hname fun hmem => hseparate _ hmem _ List.mem_cons_self rfl]
        simp only [fits_cons_param_iff hname]
        constructor
        · rintro ⟨text, others, rfl, h⟩
          obtain ⟨htext, hothers⟩ := List.forall_mem_cons.1 hactual
          obtain ⟨params, rfl, hfits, rfl⟩ := (ih hwell.tail (hnext text) hothers).1 h
          exact ⟨(name, .string text) :: params, List.append_assoc _ _ _,
            ⟨text, params, htext, hfits, rfl⟩, (build_cons_param hname hnew text).symm⟩
        · rintro ⟨_, rfl, ⟨text, params, -, hfits, rfl⟩, rfl⟩
          rw [build_cons_param hname hnew] at hactual ⊢
          have hothers := (List.forall_mem_cons.1 hactual).2
          exact ⟨text, _, rfl, (ih hwell.tail (hnext text) hothers).2
            ⟨params, by simp, hfits, rfl⟩⟩

end Matching

/-! ## Paths -/

/-- Characters in front of the end of a path. -/
def isInside (c : Char) : Bool := !(c == '?' || c == '#')

/-- A path ends at the first question or number sign. -/
theorem isInside_iff {c : Char} : isInside c = true ↔ c ≠ '?' ∧ c ≠ '#' := by
  simp [isInside]

/-- The segments of a path are those in front of its end. -/
theorem segmentsOf_eq (path : String) :
    segmentsOf path = segmentsIn (path.toList.takeWhile isInside) := by
  rw [segmentsOf, textBefore, pathSegments_eq, String.toList_ofList]
  rfl

/-- The segments of a path hold nothing that ends it. -/
theorem isValue_of_mem_segmentsOf {path segment : String} (h : segment ∈ segmentsOf path) :
    IsValue segment := by
  refine ⟨isSegment_of_mem_pathSegments h, ?_⟩
  rw [segmentsOf_eq] at h
  have hinside : ∀ c ∈ segment.toList, c ≠ '?' ∧ c ≠ '#' := fun c hc =>
    isInside_iff.1 (List.mem_takeWhile_imp (mem_of_mem_segmentsIn h hc))
  exact ⟨fun hmem => (hinside _ hmem).1 rfl, fun hmem => (hinside _ hmem).2 rfl⟩

/-- A path leads along its segments. -/
theorem leadsAlong_segmentsOf (path : String) : LeadsAlong (segmentsOf path) path := by
  refine ⟨path.toList.takeWhile isInside, path.toList.dropWhile isInside,
    List.takeWhile_append_dropWhile.symm, spells_iff.2 (segmentsOf_eq path).symm, ?_⟩
  intro c hc
  have hend := List.head?_dropWhile_not isInside path.toList
  rw [hc] at hend
  have hends : ¬ (c ≠ '?' ∧ c ≠ '#') := fun h => by simp [isInside_iff.2 h] at hend
  exact Decidable.or_iff_not_not_and_not.2 hends

/-- A path that leads along segments has these. -/
theorem LeadsAlong.segmentsOf_eq {segments : List String} {path : String}
    (h : LeadsAlong segments path) (hsegments : ∀ s ∈ segments, IsValue s) :
    segmentsOf path = segments := by
  obtain ⟨front, back, hpath, hspells, hback⟩ := h
  have hfront : ∀ c ∈ front, isInside c = true := by
    intro c hc
    refine isInside_iff.2 ?_
    obtain rfl | ⟨segment, hmem, hchar⟩ := hspells.mem_of_mem hc
    · decide
    · obtain ⟨-, hquestion, hnumber⟩ := hsegments segment hmem
      exact ⟨fun heq => hquestion (heq ▸ hchar), fun heq => hnumber (heq ▸ hchar)⟩
  have hends : back.takeWhile isInside = [] := by
    cases back with
    | nil => rfl
    | cons c rest =>
      obtain rfl | rfl := hback c rfl <;> rfl
  rw [RoutePattern.segmentsOf_eq, hpath, List.takeWhile_append_of_pos hfront, hends,
    List.append_nil]
  exact hspells.segmentsIn_eq

/-- A path matches a pattern with the values that build it: these fill the pattern in to the
segments along which the path leads, which are those in front of the first question or number
sign. -/
theorem match?_eq_some_iff {pattern : String} (hwell : WellFormed (pathSegments pattern))
    (path : String) (params : List (String × Json)) :
    (match? pattern path = some params ↔
      Fits (pathSegments pattern) params ∧
        LeadsAlong (build params (pathSegments pattern)) path) ∧
    (match? pattern path = some params →
      build params (pathSegments pattern) = segmentsOf path) := by
  have hiff : match? pattern path = some params ↔ Fits (pathSegments pattern) params ∧
      segmentsOf path = build params (pathSegments pattern) := by
    rw [match?, matchSegments_eq_some_iff hwell (by simpa using hwell.nodup_names)
      fun s hs => isValue_of_mem_segmentsOf hs]
    simp
  refine ⟨?_, fun h => (hiff.1 h).2.symm⟩
  rw [hiff]
  constructor
  · rintro ⟨hfits, hbuild⟩
    exact ⟨hfits, hbuild ▸ leadsAlong_segmentsOf path⟩
  · rintro ⟨hfits, hleads⟩
    exact ⟨hfits, hleads.segmentsOf_eq (hfits.isValue_of_mem_build hwell fun s hs =>
      isSegment_of_mem_pathSegments hs)⟩

/-- The parts of an item of a shop. -/
def itemPattern : String := "/shops/:shop/:item/parts/*"

/-- A page of such parts, with slashes and an ending that do not count. -/
def itemPath : String := "//shops/7/lamp/parts//a/b/?page=2#top"

/-- The path matches with a value for each name, and these values build its segments again. -/
theorem match?_itemPattern :
    WellFormed (pathSegments itemPattern) ∧
      match? itemPattern itemPath =
        some [("shop", .string "7"), ("item", .string "lamp"), ("*", .string "a/b")] ∧
      build [("shop", .string "7"), ("item", .string "lamp"), ("*", .string "a/b")]
        (pathSegments itemPattern) = segmentsOf itemPath := by
  have hsegments : pathSegments itemPattern = ["shops", ":shop", ":item", "parts", "*"] := by
    decide +kernel
  have hwell : WellFormed (pathSegments itemPattern) := by
    rw [hsegments]
    exact ⟨by decide +kernel, by decide +kernel, by decide +kernel, by decide +kernel⟩
  have hvalue : ∀ text ∈ ["7", "lamp", "a", "b"], IsValue text := by
    unfold IsValue IsSegment
    decide +kernel
  have hfits : Fits (pathSegments itemPattern)
      [("shop", .string "7"), ("item", .string "lamp"), ("*", .string "a/b")] := by
    have hrest : Fits ["*"] [("*", .string (String.intercalate "/" ["a", "b"]))] :=
      .rest fun text htext => hvalue text (List.mem_append_right ["7", "lamp"] htext)
    rw [hsegments]
    exact .literal (by decide) (by decide +kernel) (.param (by decide +kernel)
      (hvalue _ (by simp)) (.param (by decide +kernel) (hvalue _ (by simp))
        (.literal (by decide) (by decide +kernel) hrest)))
  have hleads : LeadsAlong (build [("shop", .string "7"), ("item", .string "lamp"),
      ("*", .string "a/b")] (pathSegments itemPattern)) itemPath := by
    have hbuild : build [("shop", .string "7"), ("item", .string "lamp"), ("*", .string "a/b")]
        (pathSegments itemPattern) = ["shops", "7", "lamp", "parts", "a", "b"] := by
      decide +kernel
    refine ⟨"//shops/7/lamp/parts//a/b/".toList, "?page=2#top".toList, by decide +kernel, ?_, ?_⟩
    · rw [hbuild]
      exact spells_iff.2 (by decide +kernel)
    · simp
  obtain ⟨hiff, hbuild⟩ := match?_eq_some_iff hwell itemPath
    [("shop", .string "7"), ("item", .string "lamp"), ("*", .string "a/b")]
  have hmatch := hiff.2 ⟨hfits, hleads⟩
  exact ⟨hwell, hmatch, hbuild hmatch⟩

end RoutePattern

end ViewSchema
