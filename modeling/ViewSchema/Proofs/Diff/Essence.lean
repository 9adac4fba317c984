import ViewSchema.Diff.Snapshot
import ViewSchema.Proofs.Compile.Visits

/-!
# Essences

The essence of a schema is what its output can depend on: the sections and texts in compile
order, each section with its own fields, its labels and its content.  Nested lists, values
that stand for nothing, and the ways to write down a list of sections leave no trace in it.

Main results:

- Definition `Essence.ofValue`: the essence of a value.
- Theorem `Section.induction_inside`: induction along the nesting of sections.
- Theorem `Essence.snapshots_eq`: the snapshots of a schema are those of its essence.
-/

namespace ViewSchema

/-! ## Values inside values -/

namespace Section

/-- The members of an entry, as they are written, are nested no deeper than the entry. -/
theorem depth_le_of_mem_written {entry field : String × Json} (h : field ∈ written entry) :
    field.2.depth ≤ entry.2.depth := by
  obtain ⟨key, value⟩ := entry
  cases value with
  | object fields => exact Nat.le_of_lt (Json.depth_lt_of_mem_object h)
  | _ => exact depth_le_of_mem_ofEntry h

/-- Induction along the nesting of sections: into the items of lists, the fields of sections,
and the fields that the entries of a map of sections are written with. -/
theorem induction_inside {motive : Json → Prop}
    (leaf : ∀ value, value.isArray = false → value.isObject = false → motive value)
    (array : ∀ items, (∀ item ∈ items, motive item) → motive (.array items))
    (named : ∀ fields name, name? fields = some name → (∀ field ∈ fields, motive field.2) →
      motive (.object fields))
    (entries : ∀ fields, name? fields = none →
      (∀ entry ∈ fields, ∀ field ∈ written entry, motive field.2) → motive (.object fields))
    (value : Json) : motive value := by
  induction hdepth : value.depth using Nat.strongRecOn generalizing value with
  | _ depth ih =>
    subst hdepth
    cases value with
    | array items =>
      exact array items fun item hitem => ih _ (Json.depth_lt_of_mem_array hitem) item rfl
    | object fields =>
      cases hname : name? fields with
      | some name =>
        exact named fields name hname fun field hfield =>
          ih _ (Json.depth_lt_of_mem_object hfield) field.2 rfl
      | none =>
        refine entries fields hname fun entry hentry field hfield => ih _ ?_ field.2 rfl
        exact Nat.lt_of_le_of_lt (depth_le_of_mem_written hfield)
          (Json.depth_lt_of_mem_object hentry)
    | _ => exact leaf _ rfl rfl

end Section

/-! ## Paths of texts -/

/-- The path of a text below the section around it: without blanks, and relative. -/
structure LeafPath where
  text : String
  noBlank : ' ' ∉ text.toList
  relative : text.toList.headD '/' ≠ '/'

namespace LeafPath

/-- The path of a field, if its name can be one. -/
def ofField? (name : String) : Option LeafPath :=
  if h : ' ' ∉ name.toList ∧ name.toList.headD '/' ≠ '/' then some ⟨name, h.1, h.2⟩ else none

/-- A path is not empty. -/
theorem toList_ne_nil (p : LeafPath) : p.text.toList ≠ [] := by
  intro hnil
  exact p.relative (by rw [hnil]; rfl)

/-- The path of an item of a list. -/
def item (p : LeafPath) (index : Nat) : LeafPath where
  text := Outline.join p.text (toString index)
  noBlank := by
    have hdigits : ' ' ∉ (toString index).toList := by
      intro hblank
      have hdigit := Nat.isDigit_of_mem_toDigits (by decide) (by decide)
        (show ' ' ∈ Nat.toDigits 10 index by simpa using hblank)
      exact absurd hdigit (by decide)
    unfold Outline.join
    split
    · exact hdigits
    · simpa [p.noBlank] using hdigits
  relative := by
    obtain ⟨c, rest, hcons⟩ := List.exists_cons_of_ne_nil p.toList_ne_nil
    have hhead := p.relative
    have hne : p.text.isEmpty = false := by
      rw [Bool.eq_false_iff]
      intro hempty
      rw [String.isEmpty_iff] at hempty
      exact p.toList_ne_nil (by rw [hempty]; rfl)
    rw [hcons] at hhead
    simpa [Outline.join, hne, hcons] using hhead

/-- Paths are equal if their texts are. -/
theorem ext_text {p q : LeafPath} (h : p.text = q.text) : p = q := by
  cases p
  cases q
  cases h
  rfl

end LeafPath

/-! ## Essences of values -/

/-- A section with its own fields, its content as it is written if its component takes it so,
its labels and its compiled content, or a text. Texts outside of sections have no path. -/
inductive Essence where
  | text (path : Option LeafPath) (value : Json)
  | section (name : String) (own : List (String × Json)) (raw : Option Json)
      (labels : List (String × List Essence)) (content : List Essence)

namespace Essence

/-- The fields of a section that hold no nested schema. -/
def ownFields (fields : List (String × Json)) : List (String × Json) :=
  fields.filter fun field => !Outline.nestedFields.contains field.1

/-- The content of a section whose component takes it as it is written. -/
def rawContent? (c : Compiler) (fields : List (String × Json)) : Option Json :=
  if (c.descriptorOf fields).keepsRawContent then fields.lookup "content" else none

/-- The essence of a section from the essences of its fields. -/
def ofSection (c : Compiler) (name : String) (fields : List (String × Json))
    (inside : List (String × List Essence)) : Essence :=
  .section name (ownFields fields) (rawContent? c fields)
    (Section.renderedFields.filterMap fun label =>
      (inside.lookup label).map fun essences => (label, essences))
    ((inside.lookup "content").getD [])

mutual

/-- The essence of a value, with the path of its texts below the section around it. -/
def ofValue (c : Compiler) (path : Option LeafPath) : Json → List Essence
  | .array items => ofItems c path 0 items
  | .object fields =>
    match Section.name? fields with
    | some name => [ofSection c name fields (ofFields c fields)]
    | none => ofEntries c fields
  | .null => []
  | .bool b => if b then [.text path (.bool true)] else []
  | .string s => if s.isEmpty then [] else [.text path (.string s)]
  | .number n => if n.isZero then [] else [.text path (.number n)]

def ofItems (c : Compiler) (path : Option LeafPath) (index : Nat) : List Json → List Essence
  | [] => []
  | x :: xs => ofValue c (path.map (·.item index)) x ++ ofItems c path (index + 1) xs

def ofFields (c : Compiler) : List (String × Json) → List (String × List Essence)
  | [] => []
  | (name, x) :: xs => (name, ofValue c (LeafPath.ofField? name) x) :: ofFields c xs

def ofEntries (c : Compiler) : List (String × Json) → List Essence
  | [] => []
  | (key, .object fields) :: xs =>
    ofSection c ((Section.name? fields).getD key) fields (ofFields c fields) :: ofEntries c xs
  | (key, x) :: xs =>
    ofSection c key (Section.ofEntry key x)
      [("content", ofValue c (LeafPath.ofField? "content") x)] :: ofEntries c xs

end

/-- The essence of a schema. -/
def ofSchema (c : Compiler) (schema : Json) : List Essence := ofValue c none schema

variable {c : Compiler} {path : Option LeafPath} {fields : List (String × Json)} {name : String}

/-- The essence of one field of a section, if it is there. -/
def ofField (c : Compiler) (fields : List (String × Json)) (name : String) : List Essence :=
  ((fields.lookup name).map (ofValue c (LeafPath.ofField? name))).getD []

/-- The essence of a field is that of its value, with the name of the field for a path. -/
theorem lookup_ofFields (fields : List (String × Json)) (name : String) :
    (ofFields c fields).lookup name =
      (fields.lookup name).map (ofValue c (LeafPath.ofField? name)) := by
  induction fields with
  | nil => simp [ofFields]
  | cons field rest ih =>
    obtain ⟨first, value⟩ := field
    rw [ofFields, Fields.lookup_cons, Fields.lookup_cons, ih]
    split
    · rename_i hname
      simp only at hname
      simp [hname]
    · rfl

/-- The essence of a section, field by field. -/
def ofNamed (c : Compiler) (name : String) (fields : List (String × Json)) : Essence :=
  .section name (ownFields fields) (rawContent? c fields)
    ((Section.present fields Section.renderedFields).map fun label =>
      (label.1, ofValue c (LeafPath.ofField? label.1) label.2))
    (ofField c fields "content")

/-- The essence of a section is made of those of its fields. -/
theorem ofSection_ofFields (name : String) (fields : List (String × Json)) :
    ofSection c name fields (ofFields c fields) = ofNamed c name fields := by
  simp only [ofSection, ofNamed, ofField, lookup_ofFields, Section.present, List.map_filterMap,
    Option.map_map]
  rfl

/-- Values that stand for nothing leave no trace. -/
theorem ofValue_falsy {value : Json} (h : value.isFalsy = true) (path : Option LeafPath) :
    ofValue c path value = [] := by
  cases value <;> simp_all [Json.isFalsy, ofValue]

/-- Any other leaf is a text. -/
theorem ofValue_leaf {value : Json} (h : value.isFalsy = false) (harray : value.isArray = false)
    (hobject : value.isObject = false) (path : Option LeafPath) :
    ofValue c path value = [.text path value] := by
  cases value <;> simp_all [Json.isFalsy, Json.isArray, Json.isObject, ofValue]

/-- An object with a name is one section. -/
theorem ofValue_named (h : Section.name? fields = some name) (path : Option LeafPath) :
    ofValue c path (.object fields) = [ofNamed c name fields] := by
  rw [ofValue, h]
  exact congrArg (fun e => [e]) (ofSection_ofFields name fields)

/-- The essence of an entry in a map of sections. -/
def ofEntry (c : Compiler) (entry : String × Json) : Essence :=
  ofNamed c ((Section.name? (Section.written entry)).getD entry.1) (Section.written entry)

/-- Entries of a map are sections one by one. -/
theorem ofEntries_eq (fields : List (String × Json)) :
    ofEntries c fields = fields.map (ofEntry c) := by
  induction fields with
  | nil => rfl
  | cons entry rest ih =>
    obtain ⟨key, value⟩ := entry
    cases value with
    | object members =>
      rw [ofEntries, ih, ofSection_ofFields]
      rfl
    | _ =>
      simp [ofEntries, ih, ofEntry, ofNamed, ofSection, ofField, Section.written,
        Section.ofEntry, Section.present, Section.renderedFields, Section.name?,
        Section.joinedName?, Fields.lookup_cons]

/-- An object without a name is a map of sections. -/
theorem ofValue_entries (h : Section.name? fields = none) (path : Option LeafPath) :
    ofValue c path (.object fields) = fields.map (ofEntry c) := by
  rw [ofValue, h]
  exact ofEntries_eq fields

/-! ## Snapshots of essences -/

/-- A text as snapshots show it: strings as they are, other values as JSON. -/
def shownText : Json → String
  | .string s => s
  | other => other.text

/-- The line that a text adds to the snapshot of the section around it. -/
def line? : Essence → Option String
  | .text (some path) value => some (path.text ++ " = " ++ shownText value)
  | _ => none

/-- The lines of the texts among essences. -/
def lines (essences : List Essence) : List String := essences.filterMap line?

mutual

/-- The snapshots of an essence below a section, outer sections first. -/
def collect (parent : Option String) (seen : Snapshot.Seen) :
    Essence → Snapshot.Seen × List Snapshot
  | .text _ _ => (seen, [])
  | .section name own _ labels content =>
    let chain := Snapshot.chainOf parent name
    let count := (seen.lookup chain).getD 0 + 1
    let key := Snapshot.numbered chain count
    let first := collectLabels (some key) (Fields.set seen chain count) labels
    let second := collectAll (some key) first.1 content
    (second.1, ⟨key, own.map Snapshot.fieldLine ++
      ((labels.flatMap fun label => lines label.2) ++ lines content)⟩ :: (first.2 ++ second.2))

def collectAll (parent : Option String) (seen : Snapshot.Seen) :
    List Essence → Snapshot.Seen × List Snapshot
  | [] => (seen, [])
  | e :: es =>
    let first := collect parent seen e
    let others := collectAll parent first.1 es
    (others.1, first.2 ++ others.2)

def collectLabels (parent : Option String) (seen : Snapshot.Seen) :
    List (String × List Essence) → Snapshot.Seen × List Snapshot
  | [] => (seen, [])
  | (_, es) :: labels =>
    let first := collectAll parent seen es
    let others := collectLabels parent first.1 labels
    (others.1, first.2 ++ others.2)

end

/-- Snapshots of two lists are collected one after the other, the second with the chains that the
first has seen. -/
theorem collectAll_append (parent : Option String) (seen : Snapshot.Seen) (xs ys : List Essence) :
    collectAll parent seen (xs ++ ys) =
      ((collectAll parent (collectAll parent seen xs).1 ys).1,
        (collectAll parent seen xs).2 ++
          (collectAll parent (collectAll parent seen xs).1 ys).2) := by
  induction xs generalizing seen with
  | nil => rfl
  | cons x xs ih => simp [collectAll, ih]

/-- Labels are gone through one after the other. -/
theorem collectLabels_eq (parent : Option String) (seen : Snapshot.Seen)
    (labels : List (String × List Essence)) :
    collectLabels parent seen labels = collectAll parent seen (labels.flatMap Prod.snd) := by
  induction labels generalizing seen with
  | nil => rfl
  | cons label labels ih =>
    rw [collectLabels, ih, List.flatMap_cons, collectAll_append]

/-- Lines of two lists of essences stand one behind the other. -/
theorem lines_append (xs ys : List Essence) : lines (xs ++ ys) = lines xs ++ lines ys :=
  List.filterMap_append

/-- Lines of lists of essences stand one behind the other. -/
theorem lines_flatMap {α : Type} (f : α → List Essence) (xs : List α) :
    lines (xs.flatMap f) = xs.flatMap fun x => lines (f x) := by
  induction xs with
  | nil => rfl
  | cons x xs ih => rw [List.flatMap_cons, lines_append, ih, List.flatMap_cons]

end Essence

/-! ## Snapshots of outlines -/

/-- Outlines are collected one after the other as well. -/
theorem Snapshot.collectAll_append (parent : Option String) (seen : Snapshot.Seen)
    (xs ys : List Outline) :
    collectAll parent seen (xs ++ ys) =
      ((collectAll parent (collectAll parent seen xs).1 ys).1,
        (collectAll parent seen xs).2 ++
          (collectAll parent (collectAll parent seen xs).1 ys).2) := by
  induction xs generalizing seen with
  | nil => rfl
  | cons x xs ih => simp [collectAll, ih]

/-- Outlines and essences with the same snapshots. -/
def SameSnapshots (outlines : List Outline) (essences : List Essence) : Prop :=
  ∀ parent seen, Snapshot.collectAll parent seen outlines =
    Essence.collectAll parent seen essences

namespace SameSnapshots

variable {os os' : List Outline} {es es' : List Essence}

/-- Nothing has no snapshots either way. -/
theorem nil : SameSnapshots [] [] := fun _ _ => rfl

/-- Two parts with the same snapshots each have the same together. -/
theorem append (h : SameSnapshots os es) (h' : SameSnapshots os' es') :
    SameSnapshots (os ++ os') (es ++ es') := by
  intro parent seen
  rw [Snapshot.collectAll_append, Essence.collectAll_append, h parent seen, h' parent]

/-- Parts with the same snapshots each have the same all together. -/
theorem flatMap {α : Type} {f : α → List Outline} {g : α → List Essence} {xs : List α}
    (h : ∀ x ∈ xs, SameSnapshots (f x) (g x)) :
    SameSnapshots (xs.flatMap f) (xs.flatMap g) := by
  induction xs with
  | nil => exact nil
  | cons x xs ih =>
    exact (h x List.mem_cons_self).append (ih fun y hy => h y (List.mem_cons_of_mem _ hy))

/-- A text has no snapshot of its own. -/
theorem text (path : String) (below : Option LeafPath) (value value' : Json) :
    SameSnapshots [.text path value] [.text below value'] := fun _ _ => rfl

end SameSnapshots

namespace Essence

variable {c : Compiler} {fields : List (String × Json)} {name : String}

/-! ## Lines of texts -/

/-- Going down into a section and then further is going down further. -/
theorem join_item (front : String) (p : LeafPath) (index : Nat) :
    Outline.join (Outline.join front p.text) (toString index) =
      Outline.join front (p.item index).text := by
  have hne : p.text.isEmpty = false := by
    rw [Bool.eq_false_iff, Ne, String.isEmpty_iff]
    intro hempty
    exact p.toList_ne_nil (by rw [hempty]; rfl)
  by_cases hfront : front.isEmpty = true
  · simp [Outline.join, LeafPath.item, hfront, hne]
  · simp [Outline.join, LeafPath.item, hfront, hne, String.append_assoc]

/-- The line of a text names its path below the section. -/
theorem textLine_join (front : String) (p : LeafPath) (value : Json) :
    Snapshot.textLine front (Outline.join front p.text) value =
      p.text ++ " = " ++ shownText value := by
  obtain ⟨c, rest, hcons⟩ := List.exists_cons_of_ne_nil p.toList_ne_nil
  have hhead : c ≠ '/' := by
    have hrelative := p.relative
    rwa [hcons] at hrelative
  have hdrop : p.text.toList.dropWhile (· == '/') = p.text.toList := by
    rw [hcons, List.dropWhile_cons_of_neg (by simpa using hhead)]
  have hbelow : trimFront (· == '/')
      ((afterFront? front (Outline.join front p.text)).getD (Outline.join front p.text)) =
        p.text := by
    by_cases hfront : front.isEmpty = true
    · have hnil : front = "" := String.isEmpty_iff.1 hfront
      subst hnil
      simp [Outline.join, afterFront?, trimFront, hdrop]
    · have hlist : (Outline.join front p.text).toList =
          front.toList ++ '/' :: p.text.toList := by
        simp [Outline.join, hfront]
      have hprefix : front.toList.isPrefixOf (front.toList ++ '/' :: p.text.toList) = true := by
        simp
      have hafter : afterFront? front (Outline.join front p.text) =
          some (String.ofList ('/' :: p.text.toList)) := by
        rw [afterFront?, hlist, if_pos hprefix, ← String.length_toList, List.drop_left]
      simp [hafter, trimFront, hdrop]
  unfold Snapshot.textLine
  dsimp only
  rw [hbelow]
  cases value <;> rfl

/-- Sections add no lines to the section around them. -/
theorem textLines_entries (front path : String) (fields : List (String × Json)) :
    Snapshot.textLines front (fields.map (Outline.ofEntry path)) = [] := by
  rw [Snapshot.textLines, List.filterMap_map, List.filterMap_eq_nil_iff]
  intro entry _
  rw [Function.comp_apply, Outline.ofEntry_eq]

/-- Sections in a map add no lines to the section around them. -/
theorem lines_entries (fields : List (String × Json)) :
    lines (fields.map (ofEntry c)) = [] := by
  rw [lines, List.filterMap_map, List.filterMap_eq_nil_iff]
  intro entry _
  rfl

mutual

/-- The texts of a value add the same lines to the section around it. -/
theorem textLines_ofValue (front : String) : ∀ (value : Json) (p : LeafPath),
    Snapshot.textLines front (Outline.ofValue (Outline.join front p.text) value) =
      lines (ofValue c (some p) value)
  | .array items, p => by
    rw [Outline.ofValue, ofValue]
    exact textLines_ofItems front items p 0
  | .object fields, p => by
    cases hname : Section.name? fields with
    | some name => simp [Outline.ofValue, hname, ofValue_named hname, ofNamed, Snapshot.textLines,
        lines, line?]
    | none =>
      have houtline : Outline.ofValue (Outline.join front p.text) (.object fields) =
          fields.map (Outline.ofEntry (Outline.join front p.text)) := by
        rw [Outline.ofValue, hname]
        exact Outline.ofEntries_eq _ fields
      rw [houtline, textLines_entries, ofValue_entries hname, lines_entries]
  | .null, _ => rfl
  | .bool b, p => by
    cases b <;> simp [Outline.ofValue, ofValue, Snapshot.textLines, lines, line?, textLine_join]
  | .string s, p => by
    by_cases hempty : s.isEmpty = true <;>
      simp [Outline.ofValue, ofValue, Snapshot.textLines, lines, line?, textLine_join, hempty]
  | .number n, p => by
    by_cases hzero : n.isZero = true <;>
      simp [Outline.ofValue, ofValue, Snapshot.textLines, lines, line?, textLine_join, hzero]

/-- Items add the lines of their texts, under paths that count the items. -/
theorem textLines_ofItems (front : String) : ∀ (items : List Json) (p : LeafPath) (index : Nat),
    Snapshot.textLines front (Outline.ofItems (Outline.join front p.text) index items) =
      lines (ofItems c (some p) index items)
  | [], _, _ => rfl
  | x :: xs, p, index => by
    have hfirst := textLines_ofValue front x (p.item index)
    have hrest := textLines_ofItems front xs p (index + 1)
    rw [← join_item] at hfirst
    unfold Snapshot.textLines at hfirst hrest ⊢
    rw [Outline.ofItems, ofItems, List.filterMap_append, lines_append, hfirst, hrest]
    rfl

end

/-! ## Snapshots of values -/

/-- Labels come before the content. -/
theorem labels_append_content (c : Compiler) (fields : List (String × Json)) :
    ((Section.present fields Section.renderedFields).map fun label =>
        (label.1, ofValue c (LeafPath.ofField? label.1) label.2)).flatMap Prod.snd ++
      ofField c fields "content" = Outline.nestedFields.flatMap (ofField c fields) := by
  have hlabels := Section.flatMap_present fields Section.renderedFields fun label value =>
    ofValue c (LeafPath.ofField? label) value
  rw [Outline.nestedFields, List.flatMap_append, List.flatMap_map, hlabels, List.flatMap_singleton]
  rfl

/-- Fields with nested schemas have names that can be paths. -/
theorem exists_ofField {field : String} (h : field ∈ Outline.nestedFields) :
    ∃ p, LeafPath.ofField? field = some p ∧ p.text = field := by
  have hpath : ' ' ∉ field.toList ∧ field.toList.headD '/' ≠ '/' := by
    revert field
    decide
  exact ⟨⟨field, hpath.1, hpath.2⟩, dif_pos hpath, rfl⟩

/-- The texts of a nested field add the same lines. -/
theorem textLines_ofField (path : String) (fields : List (String × Json)) {field : String}
    (h : field ∈ Outline.nestedFields) :
    Snapshot.textLines path (Outline.ofField path fields field) =
      lines (ofField c fields field) := by
  obtain ⟨p, hp, htext⟩ := exists_ofField h
  unfold Outline.ofField ofField
  cases hfind : fields.lookup field with
  | none => rfl
  | some value =>
    have hlines := textLines_ofValue (c := c) path value p
    rw [htext] at hlines
    simpa [hp] using hlines

/-- A section has the same snapshots as its essence when its fields do. -/
theorem sameSnapshots_section (path name : String) (fields : List (String × Json))
    (h : ∀ field ∈ fields, ∀ path below,
      SameSnapshots (Outline.ofValue path field.2) (ofValue c below field.2)) :
    SameSnapshots [.section path name fields
        (Outline.nestedFields.flatMap (Outline.ofField path fields))]
      [ofNamed c name fields] := by
  have hinside : SameSnapshots (Outline.nestedFields.flatMap (Outline.ofField path fields))
      (Outline.nestedFields.flatMap (ofField c fields)) := by
    refine .flatMap fun field _ => ?_
    unfold Outline.ofField ofField
    cases hfind : fields.lookup field with
    | none => exact .nil
    | some value => exact h _ (Fields.mem_of_lookup hfind) _ _
  have hlines : Snapshot.textLines path
      (Outline.nestedFields.flatMap (Outline.ofField path fields)) =
        lines (Outline.nestedFields.flatMap (ofField c fields)) := by
    rw [Snapshot.textLines, List.filterMap_flatMap, lines_flatMap]
    exact List.flatMap_congr fun field hfield => textLines_ofField path fields hfield
  have hsplit := labels_append_content c fields
  have hlabelLines : (((Section.present fields Section.renderedFields).map fun label =>
      (label.1, ofValue c (LeafPath.ofField? label.1) label.2)).flatMap fun label =>
        lines label.2) ++ lines (ofField c fields "content") =
      lines (Outline.nestedFields.flatMap (ofField c fields)) := by
    rw [← hsplit, lines_append, lines_flatMap]
  intro parent seen
  simp only [Snapshot.collectAll, Snapshot.collect, collectAll, collect, ofNamed,
    collectLabels_eq, hlabelLines, hlines, hinside _ _, List.append_nil, Snapshot.ownLines]
  rw [← hsplit, collectAll_append]
  rfl

/-- A map of sections has the same snapshots as its essence when its entries do. -/
theorem sameSnapshots_map (path : String) {fields : List (String × Json)}
    (h : ∀ entry ∈ fields, ∀ field ∈ Section.written entry, ∀ path below,
      SameSnapshots (Outline.ofValue path field.2) (ofValue c below field.2)) :
    SameSnapshots (fields.map (Outline.ofEntry path)) (fields.map (ofEntry c)) := by
  rw [List.map_eq_flatMap, List.map_eq_flatMap]
  refine .flatMap fun entry hentry => ?_
  rw [Outline.ofEntry_eq]
  exact sameSnapshots_section _ _ _ (h entry hentry)

/-- A text has no snapshot of its own, and what stands for nothing has none. -/
theorem sameSnapshots_leaf {value : Json} (harray : value.isArray = false)
    (hobject : value.isObject = false) (path : String) (below : Option LeafPath) :
    SameSnapshots (Outline.ofValue path value) (ofValue c below value) := by
  cases hfalsy : value.isFalsy with
  | true =>
    rw [Outline.ofValue_falsy hfalsy, ofValue_falsy hfalsy]
    exact .nil
  | false =>
    rw [Outline.ofValue_leaf hfalsy harray hobject, ofValue_leaf hfalsy harray hobject]
    exact .text _ _ _ _

/-- The items of a list have the same snapshots as their essences when each of them does. -/
theorem sameSnapshots_items {items : List Json}
    (h : ∀ item ∈ items, ∀ path below,
      SameSnapshots (Outline.ofValue path item) (ofValue c below item))
    (path : String) (below : Option LeafPath) (index : Nat) :
    SameSnapshots (Outline.ofItems path index items) (ofItems c below index items) := by
  induction items generalizing index with
  | nil => exact .nil
  | cons item rest ih =>
    rw [Outline.ofItems, ofItems]
    exact (h item List.mem_cons_self _ _).append
      (ih (fun other hother => h other (List.mem_cons_of_mem _ hother)) (index + 1))

/-- The snapshots of a value are those of its essence. -/
theorem sameSnapshots_ofValue (value : Json) : ∀ path below,
    SameSnapshots (Outline.ofValue path value) (ofValue c below value) := by
  induction value using Section.induction_inside with
  | leaf value harray hobject => exact sameSnapshots_leaf harray hobject
  | array items ih =>
    intro path below
    rw [Outline.ofValue, ofValue]
    exact sameSnapshots_items ih path below 0
  | named fields name hname ih =>
    intro path below
    rw [Outline.ofValue, hname, ofValue_named hname]
    simp only [Outline.pick_ofFields]
    exact sameSnapshots_section path name fields ih
  | entries fields hname ih =>
    intro path below
    rw [Outline.ofValue, hname, ofValue_entries hname]
    simp only [Outline.ofEntries_eq]
    exact sameSnapshots_map path ih

/-- The snapshots of a schema are those of its essence. -/
theorem snapshots_eq (c : Compiler) (schema : Json) :
    Snapshot.ofSchema schema = (collectAll none [] (ofSchema c schema)).2 :=
  congrArg Prod.snd (sameSnapshots_ofValue schema "" none none [])

end Essence

end ViewSchema
