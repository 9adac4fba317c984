import ViewSchema.Proofs.Diff.Essence
import ViewSchema.Proofs.Json.Decoding
import ViewSchema.Proofs.Json.Equality

/-!
# Snapshots determine what agrees otherwise

Snapshots tell the own fields of sections and the texts in them.  They do not tell texts outside
of sections, nor how sections stand beside each other, nor the contents that components take as
they are written.  Nor do they always tell a text from a field, as both are lines: the line of a
text may read like that of a field with an odd name.  Schemas that agree in all of this, so that
their texts stand at the same places, have the same keys, and the same essence once their snapshots
are the same, provided that the texts of their numbers tell these apart.

Main results:

- Definition `Essence.AgreeAll`: essences that differ only in what snapshots tell.
- Theorem `Essence.keys_eq`: they have the same keys.
- Theorem `Essence.eq_of_snapshots`: with the same snapshots they are equal.
-/

namespace ViewSchema

namespace Essence

/-! ## Agreement -/

mutual

/-- Essences that differ only in what snapshots tell: the own fields of sections, and what the texts
in sections say and under which paths. Texts outside of sections are the same, and those in sections
are strings on both sides or on neither. -/
def Agree : Essence → Essence → Prop
  | .text path value, .text path' value' =>
    path.isSome = path'.isSome ∧ value.string?.isSome = value'.string?.isSome ∧
      (path = none → value = value')
  | .section name _ raw labels content, .section name' _ raw' labels' content' =>
    name = name' ∧ raw = raw' ∧ AgreeLabels labels labels' ∧ AgreeAll content content'
  | _, _ => False

/-- Essences that agree one by one: there are equally many, and a text stands where a text stands
and a section where a section stands. Which texts and sections there are, and in which order, is
thus part of the agreement, inside of every section and label as well as outside of them. -/
def AgreeAll : List Essence → List Essence → Prop
  | [], [] => True
  | e :: es, e' :: es' => Agree e e' ∧ AgreeAll es es'
  | _, _ => False

/-- The same labels are present, and what they hold agrees. -/
def AgreeLabels : List (String × List Essence) → List (String × List Essence) → Prop
  | [], [] => True
  | (name, es) :: labels, (name', es') :: labels' =>
    name = name' ∧ AgreeAll es es' ∧ AgreeLabels labels labels'
  | _, _ => False

end

mutual

/-- Agreement can be checked. -/
def decideAgree : ∀ e e' : Essence, Decidable (Agree e e')
  | .text path value, .text path' value' =>
    inferInstanceAs (Decidable (path.isSome = path'.isSome ∧
      value.string?.isSome = value'.string?.isSome ∧ (path = none → value = value')))
  | .section name _ raw labels content, .section name' _ raw' labels' content' =>
    have := decideAgreeLabels labels labels'
    have := decideAgreeAll content content'
    inferInstanceAs (Decidable (name = name' ∧ raw = raw' ∧ AgreeLabels labels labels' ∧
      AgreeAll content content'))
  | .text _ _, .section _ _ _ _ _ => .isFalse id
  | .section _ _ _ _ _, .text _ _ => .isFalse id

def decideAgreeAll : ∀ es es' : List Essence, Decidable (AgreeAll es es')
  | [], [] => .isTrue trivial
  | e :: es, e' :: es' =>
    have := decideAgree e e'
    have := decideAgreeAll es es'
    inferInstanceAs (Decidable (Agree e e' ∧ AgreeAll es es'))
  | [], _ :: _ => .isFalse id
  | _ :: _, [] => .isFalse id

def decideAgreeLabels : ∀ labels labels' : List (String × List Essence),
    Decidable (AgreeLabels labels labels')
  | [], [] => .isTrue trivial
  | (name, es) :: labels, (name', es') :: labels' =>
    have := decideAgreeAll es es'
    have := decideAgreeLabels labels labels'
    inferInstanceAs (Decidable (name = name' ∧ AgreeAll es es' ∧ AgreeLabels labels labels'))
  | [], _ :: _ => .isFalse id
  | _ :: _, [] => .isFalse id

end

instance (es es' : List Essence) : Decidable (AgreeAll es es') := decideAgreeAll es es'

/-! ## Keys -/

/-- Collections with the same chains seen and the same keys. -/
structure SameKeys (found found' : Snapshot.Seen × List Snapshot) : Prop where
  seen : found.1 = found'.1
  keys : found.2.map Snapshot.key = found'.2.map Snapshot.key

/-- With the same keys there are equally many snapshots. -/
theorem SameKeys.length_eq {found found' : Snapshot.Seen × List Snapshot}
    (h : SameKeys found found') : found.2.length = found'.2.length := by
  simpa using congrArg List.length h.keys

mutual

/-- Essences that agree have the same keys. -/
theorem sameKeys (parent : Option String) (seen : Snapshot.Seen) : ∀ {e e' : Essence},
    Agree e e' → SameKeys (collect parent seen e) (collect parent seen e')
  | .text _ _, .text _ _, _ => ⟨rfl, rfl⟩
  | .section name own raw labels content, .section name' own' raw' labels' content', h => by
    obtain ⟨rfl, -, hlabels, hcontent⟩ := h
    simp only [collect]
    generalize Snapshot.numbered _ _ = key
    have hfirst := sameKeys_labels (some key) (Fields.set seen (Snapshot.chainOf parent name)
      ((seen.lookup (Snapshot.chainOf parent name)).getD 0 + 1)) hlabels
    have hsecond := fun seen => sameKeys_all (some key) seen hcontent
    rw [hfirst.seen]
    exact ⟨(hsecond _).seen, by simp [hfirst.keys, (hsecond _).keys]⟩

/-- Essences that agree one by one have the same keys, as each leaves the same chains seen to the
next. -/
theorem sameKeys_all (parent : Option String) (seen : Snapshot.Seen) : ∀ {es es' : List Essence},
    AgreeAll es es' → SameKeys (collectAll parent seen es) (collectAll parent seen es')
  | [], [], _ => ⟨rfl, rfl⟩
  | e :: es, e' :: es', ⟨h, hrest⟩ => by
    have hfirst := sameKeys parent seen h
    simp only [collectAll]
    rw [hfirst.seen]
    have hothers := sameKeys_all parent (collect parent seen e').1 hrest
    exact ⟨hothers.seen, by simp [hfirst.keys, hothers.keys]⟩

/-- So do labels that agree. -/
theorem sameKeys_labels (parent : Option String) (seen : Snapshot.Seen) :
    ∀ {labels labels' : List (String × List Essence)}, AgreeLabels labels labels' →
      SameKeys (collectLabels parent seen labels) (collectLabels parent seen labels')
  | [], [], _ => ⟨rfl, rfl⟩
  | (_, es) :: labels, (_, es') :: labels', ⟨_, h, hrest⟩ => by
    have hfirst := sameKeys_all parent seen h
    simp only [collectLabels]
    rw [hfirst.seen]
    have hothers := sameKeys_labels parent (collectAll parent seen es').1 hrest
    exact ⟨hothers.seen, by simp [hfirst.keys, hothers.keys]⟩

end

/-- Schemas that agree apart from their snapshots have the same keys. -/
theorem keys_eq {c : Compiler} {schema other : Json}
    (h : AgreeAll (ofSchema c schema) (ofSchema c other)) :
    (Snapshot.ofSchema schema).map Snapshot.key = (Snapshot.ofSchema other).map Snapshot.key := by
  rw [snapshots_eq c, snapshots_eq c]
  exact (sameKeys_all none [] h).keys

/-! ## Lines -/

/-- The first essence adds its line, if it has one, in front. -/
theorem lines_cons (e : Essence) (es : List Essence) :
    lines (e :: es) = (line? e).toList ++ lines es := by
  cases hline : line? e <;> simp [lines, hline]

/-- Essences that agree add equally many lines. -/
theorem Agree.length_line : ∀ {e e' : Essence}, Agree e e' →
    (line? e).toList.length = (line? e').toList.length
  | .text path _, .text path' _, h => by
    have hpaths : path.isSome = path'.isSome := h.1
    cases path <;> cases path' <;> first | rfl | cases hpaths
  | .section _ _ _ _ _, .section _ _ _ _ _, _ => rfl

/-- Essences that agree one by one add equally many lines. -/
theorem AgreeAll.length_lines : ∀ {es es' : List Essence}, AgreeAll es es' →
    (lines es).length = (lines es').length
  | [], [], _ => rfl
  | e :: es, e' :: es', ⟨h, hrest⟩ => by
    rw [lines_cons, lines_cons, List.length_append, List.length_append, h.length_line,
      AgreeAll.length_lines hrest]

/-- Labels that agree add equally many lines. -/
theorem AgreeLabels.length_lines : ∀ {labels labels' : List (String × List Essence)},
    AgreeLabels labels labels' →
      (labels.flatMap fun label => lines label.2).length =
        (labels'.flatMap fun label => lines label.2).length
  | [], [], _ => rfl
  | (_, es) :: labels, (_, es') :: labels', ⟨_, h, hrest⟩ => by
    rw [List.flatMap_cons, List.flatMap_cons, List.length_append, List.length_append,
      h.length_lines, AgreeLabels.length_lines hrest]

/-- Texts with the same line have the same path and show the same. -/
theorem line_inj {p p' : LeafPath} {s s' : String}
    (h : p.text ++ " = " ++ s = p'.text ++ " = " ++ s') : p = p' ∧ s = s' := by
  have hchars : ∀ (p : LeafPath) (s : String), (p.text ++ " = " ++ s).toList =
      p.text.toList ++ ' ' :: '=' :: ' ' :: s.toList := by
    intro p s
    simp
  have hfront : ∀ (p : LeafPath) (rest : List Char),
      (p.text.toList ++ ' ' :: rest).takeWhile (· != ' ') = p.text.toList := by
    intro p rest
    have hkept : ∀ c ∈ p.text.toList, (c != ' ') = true := by
      intro c hc
      rw [bne_iff_ne]
      rintro rfl
      exact p.noBlank hc
    rw [List.takeWhile_append_of_pos hkept]
    simp
  have hlist := congrArg String.toList h
  rw [hchars, hchars] at hlist
  have hpath : p.text.toList = p'.text.toList := by
    rw [← hfront p, hlist, hfront p']
  rw [hpath] at hlist
  have hshown := List.append_cancel_left hlist
  simp only [List.cons.injEq, true_and] at hshown
  exact ⟨LeafPath.ext_text (String.toList_inj.1 hpath), String.toList_inj.1 hshown⟩

variable {P : Number → Prop}

/-- A text is told from others by what is shown of it, if both are strings or neither is. -/
theorem shownText_inj (hnumbers : Number.ToldApart P) {value value' : Json}
    (h : value.AllNumbers P) (h' : value'.AllNumbers P)
    (hkind : value.string?.isSome = value'.string?.isSome)
    (hshown : shownText value = shownText value') : value = value' := by
  cases hvalue : value.string? with
  | none =>
    have hvalue' : value'.string? = none := by simpa [hvalue] using hkind.symm
    have htext : ∀ {v : Json}, v.string? = none → shownText v = v.text := by
      intro v hv
      cases v <;> first | rfl | cases hv
    rw [htext hvalue, htext hvalue'] at hshown
    exact Json.text_inj hnumbers h h' hshown
  | some s =>
    obtain ⟨s', hvalue'⟩ := Option.isSome_iff_exists.1 (show value'.string?.isSome by
      rw [← hkind, hvalue]; rfl)
    have hstring : ∀ {v : Json} {s : String}, v.string? = some s → v = .string s := by
      intro v s hv
      cases v <;> cases hv
      rfl
    rw [hstring hvalue, hstring hvalue'] at hshown ⊢
    exact congrArg Json.string hshown

/-- A field is told by its line. -/
theorem fieldLine_inj (hnumbers : Number.ToldApart P) {field field' : String × Json}
    (h : field.2.AllNumbers P) (h' : field'.2.AllNumbers P)
    (hline : Snapshot.fieldLine field = Snapshot.fieldLine field') : field = field' := by
  obtain ⟨hname, htext⟩ := Json.named_inj hline
  exact Prod.ext hname (Json.text_inj hnumbers h h' htext)

/-- Own fields can be told from their lines if their numbers can. -/
theorem fields_inj (hnumbers : Number.ToldApart P) {own own' : List (String × Json)}
    (h : ∀ field ∈ own, field.2.AllNumbers P) (h' : ∀ field ∈ own', field.2.AllNumbers P)
    (hlines : own.map Snapshot.fieldLine = own'.map Snapshot.fieldLine) : own = own' := by
  induction own generalizing own' with
  | nil => exact (List.map_eq_nil_iff.1 hlines.symm).symm
  | cons field rest ih =>
    cases own' with
    | nil => cases hlines
    | cons field' rest' =>
      rw [List.forall_mem_cons] at h h'
      obtain ⟨hfirst, hrest⟩ := List.cons.inj hlines
      rw [fieldLine_inj hnumbers h.1 h'.1 hfirst, ih h.2 h'.2 hrest]

/-! ## Numbers -/

mutual

/-- All numbers that snapshots show are of some kind. -/
def AllNumbers (P : Number → Prop) : Essence → Prop
  | .text _ value => value.AllNumbers P
  | .section _ own _ labels content =>
    (∀ field ∈ own, field.2.AllNumbers P) ∧ AllNumbersOfLabels P labels ∧
      AllNumbersOf P content

def AllNumbersOf (P : Number → Prop) : List Essence → Prop
  | [] => True
  | e :: es => AllNumbers P e ∧ AllNumbersOf P es

def AllNumbersOfLabels (P : Number → Prop) : List (String × List Essence) → Prop
  | [] => True
  | (_, es) :: labels => AllNumbersOf P es ∧ AllNumbersOfLabels P labels

end

/-- The numbers in two lists of essences are those in either. -/
theorem allNumbersOf_append {es es' : List Essence} :
    AllNumbersOf P (es ++ es') ↔ AllNumbersOf P es ∧ AllNumbersOf P es' := by
  induction es with
  | nil => simp [AllNumbersOf]
  | cons e es ih => simp [AllNumbersOf, ih, and_assoc]

/-- The numbers in a mapped list are those in the essences it is mapped to. -/
theorem allNumbersOf_map {α : Type} {f : α → Essence} {xs : List α} :
    AllNumbersOf P (xs.map f) ↔ ∀ x ∈ xs, (f x).AllNumbers P := by
  induction xs with
  | nil => simp [AllNumbersOf]
  | cons x xs ih => simp [AllNumbersOf, ih]

/-- The numbers in mapped labels are those in the essences that the labels hold. -/
theorem allNumbersOfLabels_map {fields : List (String × Json)}
    {f : String × Json → List Essence} :
    AllNumbersOfLabels P (fields.map fun field => (field.1, f field)) ↔
      ∀ field ∈ fields, AllNumbersOf P (f field) := by
  induction fields with
  | nil => simp [AllNumbersOfLabels]
  | cons field fields ih => simp [AllNumbersOfLabels, ih]

variable {c : Compiler}

/-- The numbers of a section are those of its fields. -/
theorem allNumbers_ofNamed {fields : List (String × Json)} (name : String)
    (hvalues : ∀ field ∈ fields, field.2.AllNumbers P)
    (h : ∀ field ∈ fields, ∀ path, AllNumbersOf P (ofValue c path field.2)) :
    (ofNamed c name fields).AllNumbers P := by
  refine ⟨fun field hfield => hvalues field (List.mem_filter.1 hfield).1, ?_, ?_⟩
  · rw [allNumbersOfLabels_map]
    intro field hfield
    exact h field (Section.mem_of_mem_present hfield) _
  · unfold ofField
    cases hfind : fields.lookup "content" with
    | none => trivial
    | some value => exact h _ (Fields.mem_of_lookup hfind) _

/-- An entry of a map of sections has no other numbers when it is written as a section. -/
theorem allNumbers_written {entry : String × Json} (h : entry.2.AllNumbers P) :
    ∀ field ∈ Section.written entry, field.2.AllNumbers P := by
  obtain ⟨key, value⟩ := entry
  cases value with
  | object fields => exact Json.allNumbersFields_iff.1 h
  | _ =>
    intro field hfield
    rcases List.mem_pair.1 hfield with rfl | rfl
    · trivial
    · exact h

/-- What holds of the numbers in the essences of items holds of those of a whole list, whatever the
paths. -/
theorem allNumbers_ofItems {items : List Json}
    (h : ∀ item ∈ items, ∀ path, AllNumbersOf P (ofValue c path item))
    (path : Option LeafPath) (index : Nat) : AllNumbersOf P (ofItems c path index items) := by
  induction items generalizing index with
  | nil => trivial
  | cons item rest ih =>
    rw [List.forall_mem_cons] at h
    rw [ofItems, allNumbersOf_append]
    exact ⟨h.1 _, ih h.2 (index + 1)⟩

/-- The essence of a value has no other numbers than the value. -/
theorem allNumbers_ofValue (value : Json) (hvalue : value.AllNumbers P) :
    ∀ path, AllNumbersOf P (ofValue c path value) := by
  induction value using Section.induction_inside with
  | leaf value harray hobject =>
    intro path
    cases hfalsy : value.isFalsy with
    | true =>
      rw [ofValue_falsy hfalsy]
      trivial
    | false =>
      rw [ofValue_leaf hfalsy harray hobject]
      exact ⟨hvalue, trivial⟩
  | array items ih =>
    intro path
    have hitems := Json.allNumbersItems_iff.1 hvalue
    rw [ofValue]
    exact allNumbers_ofItems (fun item hitem => ih item hitem (hitems item hitem)) path 0
  | named fields name hname ih =>
    intro path
    have hfields := Json.allNumbersFields_iff.1 hvalue
    rw [ofValue_named hname]
    exact ⟨allNumbers_ofNamed name hfields fun field hfield =>
      ih field hfield (hfields field hfield), trivial⟩
  | entries fields hname ih =>
    intro path
    have hfields := Json.allNumbersFields_iff.1 hvalue
    rw [ofValue_entries hname, allNumbersOf_map]
    intro entry hentry
    have hwritten := allNumbers_written (hfields entry hentry)
    exact allNumbers_ofNamed _ hwritten fun field hfield =>
      ih entry hentry field hfield (hwritten field hfield)

/-! ## Equal snapshots -/

mutual

/-- Essences that agree are equal when their lines and their snapshots are. -/
theorem eq_of_collect (hnumbers : Number.ToldApart P) (parent : Option String)
    (seen : Snapshot.Seen) : ∀ {e e' : Essence}, Agree e e' → e.AllNumbers P → e'.AllNumbers P →
      (line? e).toList = (line? e').toList →
      (collect parent seen e).2 = (collect parent seen e').2 → e = e'
  | .text none _, .text path' _, h, _, _, _, _ => by
    obtain ⟨hpaths, -, hvalue⟩ := h
    rw [hvalue rfl, Option.isNone_iff_eq_none.1 (show path'.isNone by simpa using hpaths.symm)]
  | .text (some p) value, .text none _, h, _, _, _, _ => by cases h.1
  | .text (some p) value, .text (some p') value', h, hall, hall', hline, _ => by
    obtain ⟨hpath, hshown⟩ := line_inj (List.cons.inj hline).1
    rw [hpath, shownText_inj hnumbers hall hall' h.2.1 hshown]
  | .section name own raw labels content, .section name' own' raw' labels' content', h, hall,
      hall', _, hsnapshots => by
    obtain ⟨rfl, rfl, hlabels, hcontent⟩ := h
    obtain ⟨hown, hlabelNumbers, hcontentNumbers⟩ := hall
    obtain ⟨hown', hlabelNumbers', hcontentNumbers'⟩ := hall'
    simp only [collect] at hsnapshots
    generalize Snapshot.numbered _ _ = key at hsnapshots
    obtain ⟨hfirst, hnested⟩ := List.cons.inj hsnapshots
    -- The lines of texts are as many on both sides, so that own lines end at the same place.
    have hlength : ((labels.flatMap fun label => lines label.2) ++ lines content).length =
        ((labels'.flatMap fun label => lines label.2) ++ lines content').length := by
      rw [List.length_append, List.length_append, hlabels.length_lines, hcontent.length_lines]
    obtain ⟨hfields, htexts⟩ := List.append_inj' (congrArg Snapshot.lines hfirst) hlength
    obtain ⟨hlabelTexts, hcontentTexts⟩ := List.append_inj htexts hlabels.length_lines
    have hinside := sameKeys_labels (some key) (Fields.set seen (Snapshot.chainOf parent name)
      ((seen.lookup (Snapshot.chainOf parent name)).getD 0 + 1)) hlabels
    obtain ⟨hlabelNested, hcontentNested⟩ := List.append_inj hnested hinside.length_eq
    rw [hinside.seen] at hcontentNested
    rw [fields_inj hnumbers hown hown' hfields,
      eq_of_collectLabels hnumbers _ _ hlabels hlabelNumbers hlabelNumbers' hlabelTexts
        hlabelNested,
      eq_of_collectAll hnumbers _ _ hcontent hcontentNumbers hcontentNumbers' hcontentTexts
        hcontentNested]

/-- Lists that agree, with the same lines and the same snapshots inside, are equal. The induction
needs both: a text is found in the lines of the section around it, a section in its own snapshot. -/
theorem eq_of_collectAll (hnumbers : Number.ToldApart P) (parent : Option String)
    (seen : Snapshot.Seen) : ∀ {es es' : List Essence}, AgreeAll es es' → AllNumbersOf P es →
      AllNumbersOf P es' → lines es = lines es' →
      (collectAll parent seen es).2 = (collectAll parent seen es').2 → es = es'
  | [], [], _, _, _, _, _ => rfl
  | e :: es, e' :: es', ⟨h, hrest⟩, ⟨hall, hallRest⟩, ⟨hall', hallRest'⟩, hlines, hsnapshots => by
    rw [lines_cons, lines_cons] at hlines
    obtain ⟨hline, hlinesRest⟩ := List.append_inj hlines h.length_line
    have hfirst := sameKeys parent seen h
    simp only [collectAll] at hsnapshots
    obtain ⟨hown, hothers⟩ := List.append_inj hsnapshots hfirst.length_eq
    rw [hfirst.seen] at hothers
    rw [eq_of_collect hnumbers parent seen h hall hall' hline hown,
      eq_of_collectAll hnumbers parent _ hrest hallRest hallRest' hlinesRest hothers]

/-- Labels that agree, with the same lines and the same snapshots inside, are equal. -/
theorem eq_of_collectLabels (hnumbers : Number.ToldApart P) (parent : Option String)
    (seen : Snapshot.Seen) : ∀ {labels labels' : List (String × List Essence)},
      AgreeLabels labels labels' → AllNumbersOfLabels P labels → AllNumbersOfLabels P labels' →
      (labels.flatMap fun label => lines label.2) = (labels'.flatMap fun label => lines label.2) →
      (collectLabels parent seen labels).2 = (collectLabels parent seen labels').2 →
      labels = labels'
  | [], [], _, _, _, _, _ => rfl
  | (_, es) :: labels, (_, es') :: labels', ⟨hname, h, hrest⟩, ⟨hall, hallRest⟩,
      ⟨hall', hallRest'⟩, hlines, hsnapshots => by
    rw [List.flatMap_cons, List.flatMap_cons] at hlines
    obtain ⟨hline, hlinesRest⟩ := List.append_inj hlines h.length_lines
    have hfirst := sameKeys_all parent seen h
    simp only [collectLabels] at hsnapshots
    obtain ⟨hown, hothers⟩ := List.append_inj hsnapshots hfirst.length_eq
    rw [hfirst.seen] at hothers
    rw [hname, eq_of_collectAll hnumbers parent seen h hall hall' hline hown,
      eq_of_collectLabels hnumbers parent _ hrest hallRest hallRest' hlinesRest hothers]

end

/-- Texts outside of sections add no lines. -/
theorem lines_outside (value : Json) : lines (ofValue c none value) = [] := by
  induction value using Section.induction_inside with
  | leaf value harray hobject =>
    cases hfalsy : value.isFalsy with
    | true => rw [ofValue_falsy hfalsy]; rfl
    | false => rw [ofValue_leaf hfalsy harray hobject]; rfl
  | array items ih =>
    rw [ofValue]
    generalize 0 = index
    induction items generalizing index with
    | nil => rfl
    | cons item rest ih' =>
      rw [List.forall_mem_cons] at ih
      rw [ofItems, lines_append, Option.map_none, ih.1, ih' ih.2, List.append_nil]
  | named fields name hname => rw [ofValue_named hname]; rfl
  | entries fields hname => rw [ofValue_entries hname, lines_entries]

/-- Schemas that agree apart from their snapshots have the same essence when these are the
same. -/
theorem eq_of_snapshots (hnumbers : Number.ToldApart P) {schema other : Json}
    (hagree : AgreeAll (ofSchema c schema) (ofSchema c other)) (h : schema.AllNumbers P)
    (hother : other.AllNumbers P) (hsame : Snapshot.ofSchema schema = Snapshot.ofSchema other) :
    ofSchema c schema = ofSchema c other := by
  rw [snapshots_eq c, snapshots_eq c] at hsame
  refine eq_of_collectAll hnumbers none [] hagree (allNumbers_ofValue schema h none)
    (allNumbers_ofValue other hother none) ?_ hsame
  rw [ofSchema, ofSchema, lines_outside, lines_outside]

end Essence

end ViewSchema
