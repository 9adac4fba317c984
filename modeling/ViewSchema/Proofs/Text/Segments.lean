import ViewSchema.Text.Split

/-!
# Segments of paths

Splitting at separators goes along with joining: what stands on the two sides of a separator is
split on its own.  A path is therefore spelled by its segments with slashes around them, one or
more between two segments and any number at both ends, and its segments are the only ones that
spell it.

Main results:

- Theorem `splitAtEach_append`: the two sides of a separator are split on their own.
- Theorem `spells_iff`: a path is spelled by its segments, and by no others.
- Theorem `pathSegments_intercalate`: segments that are joined can be read back.
-/

namespace ViewSchema

variable {separates : Char → Bool}

/-! ## Pieces -/

/-- The two sides of a separator are split on their own. -/
theorem splitAtEach_append {separator : Char} (h : separates separator = true)
    (front back : List Char) :
    splitAtEach separates (front ++ separator :: back) =
      splitAtEach separates front ++ splitAtEach separates back := by
  induction front with
  | nil => simp [splitAtEach, h]
  | cons c rest ih =>
    rw [List.cons_append, splitAtEach, splitAtEach, ih]
    split
    · rfl
    · cases hsplit : splitAtEach separates rest with
      | nil => exact absurd hsplit (splitAtEach_ne_nil separates rest)
      | cons piece others => rfl

/-- A separator in front of a text makes an empty piece. -/
theorem splitAtEach_separator {separator : Char} (h : separates separator = true)
    (text : List Char) :
    splitAtEach separates (separator :: text) = [] :: splitAtEach separates text :=
  splitAtEach_append h [] text

/-- Another character in front of a text begins its first piece. -/
theorem splitAtEach_cons {c : Char} (hc : separates c = false) {text first : List Char}
    {others : List (List Char)} (h : splitAtEach separates text = first :: others) :
    splitAtEach separates (c :: text) = (c :: first) :: others := by
  rw [splitAtEach, hc, h]
  rfl

/-- A text without separators is one piece. -/
theorem splitAtEach_of_none {piece : List Char} (h : ∀ c ∈ piece, separates c = false) :
    splitAtEach separates piece = [piece] := by
  induction piece with
  | nil => rfl
  | cons c rest ih =>
    rw [List.forall_mem_cons] at h
    simp [splitAtEach, h.1, ih h.2]

/-- A separator divides the pieces that are not empty. -/
theorem nonemptyPieces_append {separator : Char} (h : separates separator = true)
    (front back : List Char) :
    nonemptyPieces separates (front ++ separator :: back) =
      nonemptyPieces separates front ++ nonemptyPieces separates back := by
  rw [nonemptyPieces, splitAtEach_append h, List.filter_append]
  rfl

/-- Pieces that are kept are not empty, and have no separators. -/
theorem of_mem_nonemptyPieces {cs piece : List Char} (h : piece ∈ nonemptyPieces separates cs) :
    piece ≠ [] ∧ ∀ c ∈ piece, separates c = false := by
  obtain ⟨hmem, hne⟩ := List.mem_filter.1 h
  exact ⟨by simpa using hne, fun c hc => separates_eq_false_of_mem_splitAtEach hmem hc⟩

/-- Texts that are joined by a separator are split on their own. -/
theorem nonemptyPieces_intercalate {separator : Char} (h : separates separator = true)
    {joint : String} (hjoint : joint.toList = [separator]) (texts : List String) :
    nonemptyPieces separates (String.intercalate joint texts).toList =
      texts.flatMap fun text => nonemptyPieces separates text.toList := by
  induction texts with
  | nil => rfl
  | cons first rest ih =>
    cases rest with
    | nil => simp
    | cons next others =>
      rw [List.flatMap_cons, ← ih, String.intercalate_cons_cons, String.toList_append,
        String.toList_append, hjoint, List.append_assoc, List.singleton_append,
        nonemptyPieces_append h]

/-- A text without separators is one piece. -/
theorem nonemptyPieces_of_none {piece : List Char} (h : ∀ c ∈ piece, separates c = false)
    (hne : piece ≠ []) : nonemptyPieces separates piece = [piece] := by
  simp [nonemptyPieces, splitAtEach_of_none h, hne]

/-- Joined texts without separators, none of them empty, are the pieces. -/
theorem nonemptyPieces_intercalate_of_none {separator : Char} (h : separates separator = true)
    {joint : String} (hjoint : joint.toList = [separator]) {texts : List String}
    (hplain : ∀ text ∈ texts, text ≠ "" ∧ ∀ c ∈ text.toList, separates c = false) :
    nonemptyPieces separates (String.intercalate joint texts).toList =
      texts.map String.toList := by
  rw [nonemptyPieces_intercalate h hjoint]
  induction texts with
  | nil => rfl
  | cons first rest ih =>
    rw [List.forall_mem_cons] at hplain
    obtain ⟨⟨hne, hfirst⟩, hrest⟩ := hplain
    have hchars : first.toList ≠ [] := fun hnil => hne (String.toList_eq_nil_iff.1 hnil)
    rw [List.flatMap_cons, nonemptyPieces_of_none hfirst hchars, ih hrest]
    rfl

/-! ## Segments -/

/-- What stands between two slashes: a text that is not empty and has none itself. -/
def IsSegment (text : String) : Prop := text ≠ "" ∧ '/' ∉ text.toList

/-- The segments of a path are segments. -/
theorem isSegment_of_mem_pathSegments {path segment : String} (h : segment ∈ pathSegments path) :
    IsSegment segment := by
  obtain ⟨piece, hpiece, rfl⟩ := List.mem_map.1 h
  obtain ⟨hne, hplain⟩ := of_mem_nonemptyPieces hpiece
  constructor
  · intro hempty
    exact hne (by simpa using congrArg String.toList hempty)
  · intro hslash
    rw [String.toList_ofList] at hslash
    simpa using hplain '/' hslash

/-- Segments are not empty. -/
theorem IsSegment.toList_ne_nil {segment : String} (h : IsSegment segment) :
    segment.toList ≠ [] := fun hnil => h.1 (String.toList_eq_nil_iff.1 hnil)

/-- Segments have no slash. -/
theorem IsSegment.separates_eq_false {segment : String} (h : IsSegment segment) :
    ∀ c ∈ segment.toList, (c == '/') = false := by
  intro c hc
  exact beq_eq_false_iff_ne.2 fun heq => h.2 (heq ▸ hc)

/-- The segments that slashes divide a list of characters into. -/
def segmentsIn (cs : List Char) : List String :=
  (nonemptyPieces (· == '/') cs).map String.ofList

/-- The segments of a path are told by its characters. -/
theorem pathSegments_eq (path : String) : pathSegments path = segmentsIn path.toList := rfl

/-- An empty path has no segments. -/
@[simp] theorem segmentsIn_nil : segmentsIn [] = [] := rfl

/-- A slash divides the segments of a path. -/
theorem segmentsIn_append (front back : List Char) :
    segmentsIn (front ++ '/' :: back) = segmentsIn front ++ segmentsIn back := by
  rw [segmentsIn, nonemptyPieces_append (by decide), List.map_append]
  rfl

/-- The two sides of a slash have their own segments. -/
theorem pathSegments_append_slash (front back : String) :
    pathSegments (front ++ "/" ++ back) = pathSegments front ++ pathSegments back := by
  have hslash : "/".toList = ['/'] := rfl
  rw [pathSegments_eq, String.toList_append, String.toList_append, hslash, List.append_assoc,
    List.singleton_append, segmentsIn_append]
  rfl

/-- A slash at the front does not count. -/
@[simp] theorem segmentsIn_slash (cs : List Char) : segmentsIn ('/' :: cs) = segmentsIn cs :=
  segmentsIn_append [] cs

/-- Slashes at the end do not count. -/
theorem segmentsIn_append_slashes (front : List Char) {slashes : List Char}
    (h : ∀ c ∈ slashes, c = '/') : segmentsIn (front ++ slashes) = segmentsIn front := by
  induction slashes generalizing front with
  | nil => rw [List.append_nil]
  | cons c rest ih =>
    obtain ⟨rfl, hrest⟩ := List.forall_mem_cons.1 h
    rw [segmentsIn_append, ← List.nil_append rest, ih [] hrest, segmentsIn_nil, List.append_nil]

/-- A segment is one segment. -/
@[simp] theorem segmentsIn_segment {segment : String} (h : IsSegment segment) :
    segmentsIn segment.toList = [segment] := by
  simp [segmentsIn, nonemptyPieces_of_none h.separates_eq_false h.toList_ne_nil]

/-- Texts that segments spell: before, between and behind them stand slashes, at least one
between two segments. -/
inductive Spells : List String → List Char → Prop
  | none : Spells [] []
  | slash {segments cs} (rest : Spells segments cs) : Spells segments ('/' :: cs)
  | last {segment} (h : IsSegment segment) : Spells [segment] segment.toList
  | segment {segment segments cs} (h : IsSegment segment) (rest : Spells segments cs) :
      Spells (segment :: segments) (segment.toList ++ '/' :: cs)

namespace Spells

variable {segments : List String} {cs : List Char}

/-- The segments of a text are those that spell it. -/
theorem segmentsIn_eq (h : Spells segments cs) : segmentsIn cs = segments := by
  induction h with
  | none => rfl
  | slash _ ih => rw [segmentsIn_slash, ih]
  | last h => exact segmentsIn_segment h
  | segment h _ ih => rw [segmentsIn_append, segmentsIn_segment h, ih, List.singleton_append]

/-- A text has the characters of its segments. -/
theorem mem_of_mem_segment (h : Spells segments cs) {segment : String} (hmem : segment ∈ segments)
    {c : Char} (hc : c ∈ segment.toList) : c ∈ cs := by
  induction h with
  | none => simp at hmem
  | slash _ ih => exact List.mem_cons_of_mem _ (ih hmem)
  | last _ => exact List.mem_singleton.1 hmem ▸ hc
  | segment _ _ ih =>
    rw [List.mem_append, List.mem_cons]
    rcases List.mem_cons.1 hmem with rfl | hrest
    · exact .inl hc
    · exact .inr (.inr (ih hrest))

/-- A text has no characters besides the slashes and those of its segments. -/
theorem mem_of_mem (h : Spells segments cs) {c : Char} (hc : c ∈ cs) :
    c = '/' ∨ ∃ segment ∈ segments, c ∈ segment.toList := by
  induction h with
  | none => simp at hc
  | slash _ ih =>
    rcases List.mem_cons.1 hc with hslash | hrest
    · exact .inl hslash
    · exact ih hrest
  | last h => exact .inr ⟨_, List.mem_singleton.2 rfl, hc⟩
  | segment h _ ih =>
    rcases List.mem_append.1 hc with hfirst | hrest
    · exact .inr ⟨_, List.mem_cons_self, hfirst⟩
    · rcases List.mem_cons.1 hrest with hslash | hrest
      · exact .inl hslash
      · obtain hslash | ⟨segment, hmem, hchar⟩ := ih hrest
        · exact .inl hslash
        · exact .inr ⟨segment, List.mem_cons_of_mem _ hmem, hchar⟩

end Spells

namespace Spells

variable {segments : List String} {cs : List Char}

/-- A character in front of a text begins a segment, or continues the one that begins the text. -/
theorem exists_cons (h : Spells segments cs) {c : Char} (hc : c ≠ '/') :
    ∃ others, Spells others (c :: cs) := by
  have hplain : IsSegment (String.ofList [c]) := by simpa [IsSegment] using Ne.symm hc
  have hlonger : ∀ {segment : String}, IsSegment segment →
      IsSegment (String.ofList (c :: segment.toList)) := by
    intro segment hsegment
    simpa [IsSegment] using ⟨Ne.symm hc, hsegment.2⟩
  cases h with
  | none => exact ⟨_, by simpa using Spells.last hplain⟩
  | slash rest => exact ⟨_, by simpa using Spells.segment hplain rest⟩
  | last h => exact ⟨_, by simpa using Spells.last (hlonger h)⟩
  | segment h rest => exact ⟨_, by simpa using Spells.segment (hlonger h) rest⟩

end Spells

/-- A text is spelled by its segments, and by no others. -/
theorem spells_iff {segments : List String} {cs : List Char} :
    Spells segments cs ↔ segmentsIn cs = segments := by
  have hspelled : ∀ cs : List Char, ∃ segments, Spells segments cs := by
    intro cs
    induction cs with
    | nil => exact ⟨[], .none⟩
    | cons c rest ih =>
      obtain ⟨segments, hrest⟩ := ih
      by_cases hc : c = '/'
      · exact ⟨segments, hc ▸ .slash hrest⟩
      · exact hrest.exists_cons hc
  constructor
  · exact Spells.segmentsIn_eq
  · rintro rfl
    obtain ⟨segments, h⟩ := hspelled cs
    rwa [h.segmentsIn_eq]

/-- The characters of segments are those of the path. -/
theorem mem_of_mem_segmentsIn {cs : List Char} {segment : String} (h : segment ∈ segmentsIn cs)
    {c : Char} (hc : c ∈ segment.toList) : c ∈ cs :=
  (spells_iff.2 rfl : Spells (segmentsIn cs) cs).mem_of_mem_segment h hc

/-! ## Joined segments -/

/-- Joined texts without slashes are split between them. -/
theorem splitAtEach_intercalate {segments : List String} (hne : segments ≠ [])
    (h : ∀ s ∈ segments, '/' ∉ s.toList) :
    splitAtEach (· == '/') (String.intercalate "/" segments).toList =
      segments.map String.toList := by
  induction segments with
  | nil => exact absurd rfl hne
  | cons first rest ih =>
    rw [List.forall_mem_cons] at h
    have hfirst : splitAtEach (· == '/') first.toList = [first.toList] :=
      splitAtEach_of_none fun c hc => beq_eq_false_iff_ne.2 fun heq => h.1 (heq ▸ hc)
    cases rest with
    | nil => simpa using hfirst
    | cons next others =>
      have hslash : "/".toList = ['/'] := rfl
      rw [String.intercalate_cons_cons, String.toList_append, String.toList_append, hslash,
        List.append_assoc, List.singleton_append, splitAtEach_append (by decide), hfirst,
        ih (by simp) h.2]
      rfl

/-- Segments that are joined can be read back. -/
theorem pathSegments_intercalate {segments : List String} (h : ∀ s ∈ segments, IsSegment s) :
    pathSegments (String.intercalate "/" segments) = segments := by
  have hplain : ∀ s ∈ segments, s ≠ "" ∧ ∀ c ∈ s.toList, (c == '/') = false :=
    fun s hs => ⟨(h s hs).1, (h s hs).separates_eq_false⟩
  rw [pathSegments, nonemptyPieces_intercalate_of_none (by decide) rfl hplain]
  simp

end ViewSchema
