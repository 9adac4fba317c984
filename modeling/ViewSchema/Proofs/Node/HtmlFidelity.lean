import ViewSchema.Node.Html
import ViewSchema.Proofs.Json.Fields
import ViewSchema.Proofs.Markup.Tree

/-!
# Serialization is faithful

A tree that is written as HTML and read again by the markup reader is the tree itself, up to
what HTML does not show: fragments, empty texts, borders between adjacent texts, children of
void elements, and props that are not written.  Texts, class tokens, string props and styles
are arbitrary, so no value can leave its place in the markup.

Main results:

- Theorem `Html.toList_attributes`: the props of an element are written as the attributes of
  its erasure.
- Theorem `Node.resume_compact`: reading on over a written tree is going past its markup.
- Theorem `Node.parse_render`: an expanded tree that is rendered and read is its erasure.
-/

namespace ViewSchema

/-! ## Erasure -/

namespace Html

/-- The attribute that a prop leaves in markup, if any. -/
def attribute? (field : String × Json) : Option (String × Json) :=
  if hiddenProps.contains field.1 then none
  else if field.1 = "style" then
    match field.2 with
    | .object style =>
      if (styleText style).isEmpty then none else some ("style", .string (styleText style))
    | _ => none
  else
    match field.2 with
    | .bool true => some field
    | .string _ => some field
    | .number n => some (field.1, .string n.text)
    | _ => none

/-- The attributes of an element: its class list, then its props in order. -/
def attributesOf (e : Element Node) : List (String × Json) :=
  (if (classesOf e).isEmpty then [] else [("class", .string (classesOf e).text)])
    ++ e.props.filterMap attribute?

end Html

namespace Node

mutual

/-- A tree as markup, with texts as they stand in the tree. -/
def markup : Node → List Markup
  | nothing => []
  | text _ value => [.text value]
  | fragment _ children => markupOfAll children
  | element e =>
    [.tag e.tag (Html.attributesOf e)
      (if Html.isVoid e then [] else Markup.join (markupOfAll e.children))]

def markupOfAll : List Node → List Markup
  | [] => []
  | c :: cs => markup c ++ markupOfAll cs

end

/-- What is left of a tree in markup. -/
def erasure (node : Node) : List Markup := Markup.join node.markup

end Node

/-! ## Trees that can be written -/

/-- An element whose names HTML can hold: the reader takes its tag and the names of its props
for what they are, and treats the tag as void only if the writer does. Numbers are integers. -/
structure Element.Writable (e : Element Node) : Prop where
  tagName : Markup.Tag.IsTagName e.tag
  tagCase : e.tag.toLower ∈ Markup.voidTags → e.tag ∈ Markup.voidTags
  distinct : Fields.Distinct e.props
  propName : ∀ field ∈ e.props, Markup.Tag.IsAttributeName field.1 ∧ field.1 ≠ "class"
  number : ∀ field ∈ e.props, ∀ n, field.2 = .number n → ∃ i, n = .int i

/-- An element whose opening tag is read as it is written. The reader may still treat the tag as
void where the writer does not. -/
structure Element.Legible (e : Element Node) : Prop where
  tagName : Markup.Tag.IsTagName e.tag
  distinct : Fields.Distinct e.props
  propName : ∀ field ∈ e.props, Markup.Tag.IsAttributeName field.1 ∧ field.1 ≠ "class"
  number : ∀ field ∈ e.props, ∀ n, field.2 = .number n → ∃ i, n = .int i

theorem Element.Writable.legible {e : Element Node} (h : e.Writable) : e.Legible :=
  ⟨h.tagName, h.distinct, h.propName, h.number⟩

/-- What the writer does not treat as void the reader does not either. -/
theorem Element.Writable.not_void {e : Element Node} (h : e.Writable)
    (hvoid : Html.isVoid e = false) : e.tag.toLower ∉ Markup.voidTags := by
  have hsubset : ∀ tag ∈ Markup.voidTags, tag ∈ Html.voidElements := by decide
  have hwritten : e.tag ∉ Html.voidElements := by simpa [Html.isVoid] using hvoid
  exact fun hlower => hwritten (hsubset _ (h.tagCase hlower))

namespace Node

mutual

/-- All elements of a tree are writable. -/
def Writable : Node → Prop
  | nothing => True
  | text _ _ => True
  | fragment _ children => WritableAll children
  | element e => e.Writable ∧ WritableAll e.children

def WritableAll : List Node → Prop
  | [] => True
  | c :: cs => Writable c ∧ WritableAll cs

end

mutual

/-- A tree without components. -/
def Expanded : Node → Prop
  | nothing => True
  | text _ _ => True
  | fragment _ children => ExpandedAll children
  | element e => (∃ tag, e.kind = .host tag) ∧ ExpandedAll e.children

def ExpandedAll : List Node → Prop
  | [] => True
  | c :: cs => Expanded c ∧ ExpandedAll cs

end

end Node

/-! ## Attributes -/

namespace Html

open Markup.Tag (writtenAttribute IsAttribute IsAttributeName)

/-- The text of an integer needs no escaping. -/
theorem escape_intText (i : Int) :
    (Number.text (.int i)).toList.flatMap Entity.escapeAttributeChar =
      (Number.text (.int i)).toList := by
  apply Entity.flatMap_escapeAttributeChar_of_plain
  intro c hc hspecial
  have hdigit : c = '-' ∨ c.isDigit = true := by
    simp only [Number.text, Int.toString_eq_repr, Int.repr_eq_if] at hc
    split at hc
    · rw [Nat.toList_repr] at hc
      exact .inr (Nat.isDigit_of_mem_toDigits (by decide) (by decide) hc)
    · rw [String.toList_append, Nat.toList_repr] at hc
      rcases List.mem_append.1 hc with hsign | hdigits
      · exact .inl (by simpa using hsign)
      · exact .inr (Nat.isDigit_of_mem_toDigits (by decide) (by decide) hdigits)
  clear hc
  simp only [List.mem_cons, List.not_mem_nil, or_false] at hspecial
  rcases hspecial with rfl | rfl | rfl | rfl <;> exact absurd hdigit (by decide)

/-- A quoted attribute is a written text attribute. -/
theorem toList_quotedAttribute (name value : String) :
    (quotedAttribute name value).toList = writtenAttribute (name, .string value) := by
  simp [quotedAttribute, writtenAttribute, Entity.escapeAttribute]

/-- A prop is written as the attribute it leaves. -/
theorem toList_attributeOf {name : String} {value : Json}
    (hnumber : ∀ n, value = .number n → ∃ i, n = .int i) :
    (attributeOf name value).toList =
      (attribute? (name, value)).toList.flatMap writtenAttribute := by
  unfold attributeOf attribute?
  split
  · rfl
  split
  · cases value with
    | object style =>
      dsimp only [Json.object?, Option.map_some, Option.getD_some]
      by_cases hempty : (styleText style).isEmpty
      · rw [if_pos hempty, if_pos hempty]
        rfl
      · rw [if_neg hempty, if_neg hempty, toList_quotedAttribute]
        simp
    | _ => rfl
  · cases value with
    | bool b => cases b <;> simp [writtenAttribute]
    | string text => simp [toList_quotedAttribute]
    | number n =>
      obtain ⟨i, rfl⟩ := hnumber n rfl
      simp [writtenAttribute, escape_intText]
    | _ => rfl

/-- The props of an element are written as the attributes of its erasure. -/
theorem toList_attributes {e : Element Node} (h : e.Legible) :
    (attributes e).toList = (attributesOf e).flatMap writtenAttribute := by
  have hprops : (String.join (e.props.map fun field => attributeOf field.1 field.2)).toList =
      (e.props.filterMap attribute?).flatMap writtenAttribute := by
    rw [String.toList_join]
    have hnumber := h.number
    generalize e.props = props at hnumber
    induction props with
    | nil => rfl
    | cons field rest ih =>
      have hfield : (attributeOf field.1 field.2).toList =
          (attribute? field).toList.flatMap writtenAttribute :=
        toList_attributeOf (hnumber field List.mem_cons_self)
      have hrest := ih fun f hf => hnumber f (List.mem_cons_of_mem _ hf)
      rw [List.map_cons, List.flatMap_cons, hrest, hfield, List.filterMap_cons]
      cases attribute? field <;> simp
  unfold attributes attributesOf
  rw [String.toList_append, hprops, List.flatMap_append]
  split
  · rfl
  · simp [toList_quotedAttribute]

/-- What a prop leaves is an attribute of the same name. -/
theorem attribute?_eq_some {field a : String × Json} (h : attribute? field = some a) :
    a.1 = field.1 ∧ (a.2 = .bool true ∨ ∃ text, a.2 = .string text) := by
  obtain ⟨name, value⟩ := field
  unfold attribute? at h
  split at h
  · cases h
  split at h
  · rename_i hstyle
    cases value with
    | object style =>
      dsimp only at h
      split at h
      · cases h
      · cases h
        exact ⟨hstyle.symm, .inr ⟨_, rfl⟩⟩
    | _ => cases h
  · cases value with
    | bool b =>
      cases b with
      | true =>
        cases h
        exact ⟨rfl, .inl rfl⟩
      | false => cases h
    | string text =>
      cases h
      exact ⟨rfl, .inr ⟨_, rfl⟩⟩
    | number n =>
      cases h
      exact ⟨rfl, .inr ⟨_, rfl⟩⟩
    | _ => cases h

theorem isAttributeName_class : IsAttributeName "class" := by
  decide

/-- The attributes of an element are read back as they are written. -/
theorem isAttribute_of_mem {e : Element Node} (h : e.Legible) :
    ∀ a ∈ attributesOf e, IsAttribute a := by
  intro a ha
  rcases List.mem_append.1 ha with hclass | hprop
  · split at hclass
    · simp at hclass
    · rw [List.mem_singleton] at hclass
      subst hclass
      exact ⟨isAttributeName_class, .inr ⟨_, rfl⟩⟩
  · obtain ⟨field, hfield, hsome⟩ := List.mem_filterMap.1 hprop
    obtain ⟨hname, hvalue⟩ := attribute?_eq_some hsome
    exact ⟨hname ▸ (h.propName field hfield).1, hvalue⟩

/-- The attributes of an element have distinct names. -/
theorem distinct_attributesOf {e : Element Node} (h : e.Legible) :
    Fields.Distinct (attributesOf e) := by
  have hnames : (Fields.names (e.props.filterMap attribute?)).Sublist (Fields.names e.props) := by
    generalize e.props = props
    induction props with
    | nil => exact .slnil
    | cons field rest ih =>
      rw [List.filterMap_cons]
      cases hsome : attribute? field with
      | none => exact ih.cons _
      | some a =>
        rw [Fields.names_cons, Fields.names_cons, (attribute?_eq_some hsome).1]
        exact ih.cons_cons _
  have hprops : Fields.Distinct (e.props.filterMap attribute?) := h.distinct.sublist hnames
  have hclass : "class" ∉ Fields.names (e.props.filterMap attribute?) := by
    intro hmem
    obtain ⟨field, hfield, hname⟩ := List.mem_map.1 (hnames.subset hmem)
    exact (h.propName field hfield).2 hname
  unfold attributesOf
  split
  · exact hprops
  · exact List.nodup_cons.2 ⟨hclass, hprops⟩

end Html

/-! ## Reading a written tree -/

namespace Node

open Markup (Progress Builder)

/-- Reading on over the opening tag of an element, whether it closes itself or not. -/
theorem resume_opening {e : Element Node} (h : e.Legible) (selfClosing : Bool) (p : Progress)
    (rest : List Char) :
    p.resume ((Html.opening e).toList ++ (Markup.Tag.writtenEnd selfClosing ++ rest)) =
      Progress.resume ⟨p.settle.read (.tag ⟨false, e.tag, Html.attributesOf e, selfClosing⟩), ""⟩
        rest := by
  have hread := Markup.Tag.read?_opening h.tagName (Html.isAttribute_of_mem h)
    (Html.distinct_attributesOf h) selfClosing rest
  have hwritten : (Html.opening e).toList ++ (Markup.Tag.writtenEnd selfClosing ++ rest) =
      '<' :: ((e.tag.toList ++ ((Html.attributesOf e).flatMap Markup.Tag.writtenAttribute ++
        Markup.Tag.writtenEnd selfClosing)) ++ rest) := by
    simp [Html.opening, Html.toList_attributes h]
  rw [hwritten, p.resume_tag (by simpa using hread)]

/-- Reading on over the closing tag of an element. -/
theorem resume_closing {e : Element Node} (h : e.Legible) (p : Progress) (rest : List Char) :
    p.resume ((Html.closing e).toList ++ rest) =
      Progress.resume ⟨p.settle.read (.tag ⟨true, e.tag, [], false⟩), ""⟩ rest := by
  have hread := Markup.Tag.read?_closing h.tagName rest
  have hwritten : (Html.closing e).toList ++ rest =
      '<' :: ('/' :: (e.tag.toList ++ ['>']) ++ rest) := by
    simp [Html.closing]
  rw [hwritten, p.resume_tag (by simpa using hread)]

/-- An element that is written as a void one is read as a tag without children. -/
theorem resume_voidElement {e : Element Node} (h : e.Legible) (p : Progress)
    (rest : List Char) :
    p.resume ((Html.opening e ++ " />").toList ++ rest) =
      (p.past (.tag e.tag (Html.attributesOf e) [])).resume rest := by
  have hopen := resume_opening h true p rest
  rw [Builder.read_void rfl (Bool.true_or _)] at hopen
  rw [String.toList_append, List.append_assoc]
  exact hopen

/-- Any other element is opened, its children are read, and it is closed. -/
theorem resume_element {e : Element Node} (h : e.Legible) (hvoid : e.tag.toLower ∉ Markup.voidTags)
    (p : Progress) (rest : List Char)
    (hchildren : ∀ rest : List Char,
      Progress.resume ⟨p.settle.openTag e.tag (Html.attributesOf e), ""⟩
          ((Html.compactAll e.children).toList ++ rest) =
        ((markupOfAll e.children).foldl Progress.past
          ⟨p.settle.openTag e.tag (Html.attributesOf e), ""⟩).resume rest) :
    p.resume ((Html.opening e ++ ">" ++ Html.compactAll e.children ++ Html.closing e).toList
        ++ rest) =
      (p.past (.tag e.tag (Html.attributesOf e) (Markup.join (markupOfAll e.children)))).resume
        rest := by
  have hopen := resume_opening h false p
    ((Html.compactAll e.children).toList ++ ((Html.closing e).toList ++ rest))
  rw [Builder.read_opening rfl (by simpa using hvoid), hchildren, resume_closing h,
    Progress.settle_foldl, Builder.read_closing] at hopen
  have hwritten : (Html.opening e ++ ">" ++ Html.compactAll e.children ++
        Html.closing e).toList ++ rest =
      (Html.opening e).toList ++ (Markup.Tag.writtenEnd false ++
        ((Html.compactAll e.children).toList ++ ((Html.closing e).toList ++ rest))) := by
    simp [Markup.Tag.writtenEnd]
  rw [hwritten, hopen]
  rfl

mutual

/-- Reading on over a written tree is going past its markup. -/
theorem resume_compact : ∀ {node : Node}, node.Writable → ∀ (p : Progress) (rest : List Char),
    p.resume ((Html.compact node).toList ++ rest) =
      (node.markup.foldl Progress.past p).resume rest
  | nothing, _, _, _ => rfl
  | text _ value, _, p, rest => by
    rw [Html.compact, markup, Entity.escapeText, String.toList_ofList, p.resume_text]
    rfl
  | fragment _ children, h, p, rest => by
    rw [Html.compact, markup]
    rw [Writable] at h
    exact resume_compactAll h p rest
  | element e, h, p, rest => by
    rw [Writable] at h
    rw [Html.compact, markup]
    by_cases hvoid : Html.isVoid e
    · rw [if_pos hvoid, if_pos hvoid]
      exact resume_voidElement h.1.legible p rest
    · rw [if_neg hvoid, if_neg hvoid]
      exact resume_element h.1.legible (h.1.not_void (by simpa using hvoid)) p rest
        fun rest => resume_compactAll h.2 _ rest

theorem resume_compactAll :
    ∀ {children : List Node}, WritableAll children → ∀ (p : Progress) (rest : List Char),
      p.resume ((Html.compactAll children).toList ++ rest) =
        ((markupOfAll children).foldl Progress.past p).resume rest
  | [], _, _, _ => rfl
  | c :: cs, h, p, rest => by
    rw [WritableAll] at h
    rw [Html.compactAll, markupOfAll, String.toList_append, List.append_assoc,
      resume_compact h.1, resume_compactAll h.2, List.foldl_append]

end

/-- A written tree is read as its erasure. -/
theorem parse_compact {node : Node} (h : node.Writable) :
    Markup.parse (Html.compact node) = node.erasure :=
  Markup.parse_eq_join fun rest => resume_compact h .start rest

mutual

/-- Without components there is nothing to replace. -/
theorem mapComponents_of_expanded {f : Descriptor → Element Node → Node} :
    ∀ {node : Node}, node.Expanded → mapComponents f node = node
  | nothing, _ => rfl
  | text _ _, _ => rfl
  | fragment _ children, h => by
    rw [Expanded] at h
    rw [mapComponents, mapComponentsIn_of_expanded h]
  | element e, h => by
    rw [Expanded] at h
    obtain ⟨tag, htag⟩ := h.1
    obtain ⟨key, kind, props, rendered, children⟩ := e
    dsimp only at htag h
    subst htag
    rw [mapComponents, mapComponentsIn_of_expanded h.2]

theorem mapComponentsIn_of_expanded {f : Descriptor → Element Node → Node} :
    ∀ {children : List Node}, ExpandedAll children → mapComponentsIn f children = children
  | [], _ => rfl
  | c :: cs, h => by
    rw [ExpandedAll] at h
    rw [mapComponentsIn, mapComponents_of_expanded h.1, mapComponentsIn_of_expanded h.2]

end

/-- Expanding a tree without components changes nothing. -/
theorem expand_of_expanded {ctx : RenderContext} {node : Node} (h : node.Expanded) :
    node.expand ctx = node := mapComponents_of_expanded h

/-- An expanded tree that is rendered and read again is its erasure. -/
theorem parse_render (ctx : RenderContext) {node : Node} (hexpanded : node.Expanded)
    (hwritable : node.Writable) : Markup.parse (Html.render ctx node) = node.erasure := by
  rw [Html.render, expand_of_expanded hexpanded]
  exact parse_compact hwritable

/-- A notice whose texts and values look like markup. -/
def notice : Node :=
  .fragment none
    [.text none "", .text none "a < b", .nothing, .fragment none [.text none " && \"c\""],
      .element
        { key := none, kind := .host "a", rendered := []
          props :=
            [("href", .string "/?q=\"><b &lt;"), ("disabled", .bool true),
              ("hidden", .bool false), ("classes", .string "btn \"x\""),
              ("tabIndex", .int 2), ("style", .object [("fontSize", .int 12)])]
          children := [.element (.host "br"), .text none "</a>"] }]

theorem parse_render_notice :
    notice.Expanded ∧ notice.Writable ∧
      Markup.parse (Html.render ⟨.standard, none⟩ notice) =
        [.text "a < b && \"c\"",
          .tag "a"
            [("class", .string "btn \"x\""), ("href", .string "/?q=\"><b &lt;"),
              ("disabled", .bool true), ("tabIndex", .string "2"),
              ("style", .string "font-size: 12px")]
            [.tag "br" [] [], .text "</a>"]] := by
  have hexpanded : notice.Expanded := by
    simp [notice, Expanded, ExpandedAll, Element.host, Element.ofKind]
  have hbreak : (Element.host "br" : Element Node).Writable :=
    { tagName := ⟨⟨'b', ['r'], rfl, by decide⟩, List.all_eq_true.1 (by decide)⟩
      tagCase := fun _ => by decide
      distinct := .nil
      propName := by simp [Element.host, Element.ofKind]
      number := by simp [Element.host, Element.ofKind] }
  have hwritable : notice.Writable := by
    refine ⟨trivial, trivial, trivial, ⟨trivial, trivial⟩,
      ⟨?_, ⟨hbreak, trivial⟩, trivial, trivial⟩, trivial⟩
    refine
      { tagName := ⟨⟨'a', [], rfl, by decide⟩, List.all_eq_true.1 (by decide)⟩
        tagCase := fun hvoid => absurd hvoid (by decide +kernel)
        distinct := by unfold Fields.Distinct; decide
        propName := ?_
        number := ?_ }
    · simp only [List.forall_mem_cons, List.not_mem_nil, false_implies, implies_true, and_true]
      decide
    · intro field hfield n hn
      simp only [List.mem_cons, List.not_mem_nil, or_false] at hfield
      rcases hfield with rfl | rfl | rfl | rfl | rfl | rfl <;> cases hn
      exact ⟨2, rfl⟩
  exact ⟨hexpanded, hwritable, (parse_render ⟨.standard, none⟩ hexpanded hwritable).trans rfl⟩

end Node

end ViewSchema
