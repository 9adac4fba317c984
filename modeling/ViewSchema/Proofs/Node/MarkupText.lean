import ViewSchema.Proofs.Markup.Readable
import ViewSchema.Proofs.Node.Idempotence

/-!
# The text of markup in HTML

Markup that is written as HTML, each node as plain tags, and read again is the markup itself with
adjacent texts joined, but without what stands inside the tags that HTML writes as void elements.
Most of these tags are void for the reader of markup as well.  The others are read with what
follows them as their children, and text among these children is not written.

Main results:

- Theorem `Markup.resume_toHostNode`: reading on over a written tree.
- Theorem `Markup.textContents_parse_toHtml`: the text that is found in the HTML of markup.
- Theorem `Markup.text_written_iff`: it is the text of the markup exactly if no text stands inside a
  tag that is void for HTML only.
-/

namespace ViewSchema

namespace Markup

variable {nodes : List Markup}

/-! ## Text -/

mutual

/-- The texts of a tree, one after the other. -/
def textContent : Markup → String
  | text value => value
  | tag _ _ children => textContents children

def textContents : List Markup → String
  | [] => ""
  | node :: nodes => textContent node ++ textContents nodes

end

mutual

/-- The texts of a tree outside of the elements that HTML writes as void ones. -/
def writtenText : Markup → String
  | text value => value
  | tag name _ children => if name ∈ Html.voidElements then "" else writtenTexts children

def writtenTexts : List Markup → String
  | [] => ""
  | node :: nodes => writtenText node ++ writtenTexts nodes

end

mutual

/-- No text stands inside a tag that is a void element in HTML and no void tag in markup. -/
def KeepsText : Markup → Prop
  | text _ => True
  | tag name _ children =>
    if name ∈ Html.voidElements ∧ name ∉ voidTags then textContents children = ""
    else KeepsTextAll children

def KeepsTextAll : List Markup → Prop
  | [] => True
  | node :: nodes => KeepsText node ∧ KeepsTextAll nodes

end

/-- The texts of two lists of markup stand one behind the other. -/
theorem textContents_append (nodes others : List Markup) :
    textContents (nodes ++ others) = textContents nodes ++ textContents others := by
  induction nodes with
  | nil => simp [textContents]
  | cons node nodes ih => rw [List.cons_append, textContents, textContents, ih, String.append_assoc]

/-- A text that has been read so far is its own text. -/
theorem textContents_ofPending (pending : String) : textContents (ofPending pending) = pending := by
  unfold ofPending
  split
  · simp_all [textContents]
  · simp [textContents, textContent]

/-- Joining texts does not change what they say. -/
theorem textContents_joinFrom (pending : String) (nodes : List Markup) :
    textContents (joinFrom pending nodes) = pending ++ textContents nodes := by
  induction nodes generalizing pending with
  | nil => simp [joinFrom, textContents_ofPending, textContents]
  | cons node nodes ih =>
    cases node with
    | text value =>
      rw [joinFrom, ih, textContents, textContent, String.append_assoc]
    | tag name attributes children =>
      rw [joinFrom, textContents_append, textContents_ofPending, textContents, ih, textContents,
        String.empty_append]

/-- Joining neighbouring texts changes no text. -/
theorem textContents_join (nodes : List Markup) :
    textContents (join nodes) = textContents nodes := by
  rw [join, textContents_joinFrom, String.empty_append]

/-! ## Writing tags -/

/-- Props that are written as they are. -/
structure PlainProps (props : List (String × Json)) : Prop where
  distinct : Fields.Distinct props
  propName : ∀ name ∈ Fields.names props, Tag.IsAttributeName name ∧ name ≠ "class"
  number : ∀ field ∈ props, ∀ n, field.2 ≠ .number n

/-- Props stay plain when one is set that an attribute can hold. -/
theorem PlainProps.set {props : List (String × Json)} (h : PlainProps props) {name : String}
    {value : Json} (hname : Tag.IsAttributeName name ∧ name ≠ "class")
    (hvalue : ∀ n, value ≠ .number n) : PlainProps (Fields.set props name value) := by
  constructor
  · exact h.distinct.set name value
  · intro other hother
    rw [Fields.names_set] at hother
    split at hother
    · exact h.propName other hother
    · rcases List.mem_append.1 hother with hin | hnew
      · exact h.propName other hin
      · rw [List.mem_singleton.1 hnew]
        exact hname
  · intro field hfield
    rcases Fields.mem_set hfield with hin | hnew
    · exact h.number field hin
    · rw [hnew]
      exact hvalue

/-- Attributes that are read become props that are written as they are. -/
theorem plainProps_propsOf {attributes : List (String × Json)}
    (h : ∀ a ∈ attributes, Tag.IsAttribute a) : PlainProps (propsOf attributes) := by
  have hstep : ∀ props, PlainProps props → ∀ a ∈ attributes, PlainProps
      (if a.1 = "class" ∨ a.1 = "className" then
        Fields.set props "classes" (ClassList.ofJson a.2).toJson
      else Fields.set props a.1 a.2) := by
    intro props hprops a ha
    split
    · exact hprops.set (by decide) (fun n => Json.noConfusion)
    · rename_i hclass
      refine hprops.set ⟨(h a ha).name, fun hname => hclass (.inl hname)⟩ ?_
      rcases (h a ha).value with hvalue | ⟨text, hvalue⟩
      · rw [hvalue]
        exact fun n => Json.noConfusion
      · rw [hvalue]
        exact fun n => Json.noConfusion
  have hnone : PlainProps [] :=
    ⟨.nil, fun _ hname => absurd hname List.not_mem_nil,
      fun _ hfield => absurd hfield List.not_mem_nil⟩
  exact List.foldlRecOn attributes _ hnone hstep

/-- A tag that is read is legible when it is written. -/
theorem legible_of_readable {name : String} {attributes : List (String × Json)}
    (h : (Token.tag name attributes).Readable) (children : List Node) :
    Element.Legible ⟨none, .host name, propsOf attributes, [], children⟩ := by
  obtain ⟨hname, hattributes, -⟩ := h
  have hprops := plainProps_propsOf hattributes
  constructor
  · exact hname
  · exact hprops.distinct
  · exact fun field hfield => hprops.propName field.1 (List.mem_map_of_mem hfield)
  · exact fun field hfield n hn => absurd hn (hprops.number field hfield n)

/-! ## Reading on -/

/-- Adding nodes opens and closes no tags. -/
theorem Builder.openNames_addAll (b : Builder) (nodes : List Markup) :
    (b.addAll nodes).openNames = b.openNames := by
  induction nodes generalizing b with
  | nil => rfl
  | cons node nodes ih => rw [addAll_cons, ih, openNames_add]

/-- A closing tag whose name is not open is dropped. -/
theorem Builder.read_stray {b : Builder} {t : Tag} (hclosing : t.closing = true)
    (h : ∀ other ∈ b.openNames, other.toLower ≠ t.name.toLower) : b.read (.tag t) = b := by
  have hnone : b.frames.findIdx? (fun frame => frame.name.toLower == t.name.toLower) = none := by
    rw [List.findIdx?_eq_none_iff]
    intro frame hframe
    simpa using h frame.name (List.mem_map_of_mem hframe)
  rw [read]
  simp only [hclosing, if_true, closedBy, hnone, close]

namespace Progress

/-- Going past a node opens no tag. -/
theorem openNames_past (p : Progress) (node : Markup) :
    (p.past node).builder.openNames = p.builder.openNames := by
  cases node with
  | text value => rfl
  | tag name attributes children =>
    rw [past, Builder.openNames_add, settle, Builder.openNames_addAll]

/-- Going past nodes opens and closes no tags. -/
theorem openNames_foldl_past (p : Progress) (nodes : List Markup) :
    (nodes.foldl past p).builder.openNames = p.builder.openNames := by
  induction nodes generalizing p with
  | nil => rfl
  | cons node nodes ih => rw [List.foldl_cons, ih, openNames_past]

/-- Where no void tag is open none is open inside another tag. -/
theorem noVoid_openTag (p : Progress) (h : NoVoid p.builder.openNames) {name : String}
    (hvoid : name.toLower ∉ voidTags) (attributes : List (String × Json)) :
    NoVoid (p.settle.openTag name attributes).openNames := by
  have hsame : p.settle.openNames = p.builder.openNames := Builder.openNames_addAll _ _
  rw [← hsame] at h
  exact List.forall_mem_cons.2 ⟨hvoid, h⟩

end Progress

/-- A tag that only the reader takes for void is written with a closing tag, which is dropped. -/
theorem resume_emptyElement {e : Element Node} (h : e.Legible) (hvoid : e.tag.toLower ∈ voidTags)
    {p : Progress} (hopened : NoVoid p.builder.openNames) (rest : List Char) :
    p.resume ((Html.opening e ++ ">" ++ Html.closing e).toList ++ rest) =
      (p.past (.tag e.tag (Html.attributesOf e) [])).resume rest := by
  have hstray : ∀ other ∈ (p.past (.tag e.tag (Html.attributesOf e) [])).settle.openNames,
      other.toLower ≠ e.tag.toLower := by
    intro other hother heq
    rw [Progress.settle, Builder.openNames_addAll, Progress.openNames_past] at hother
    exact hopened other hother (heq ▸ hvoid)
  have hopen := Node.resume_opening h false p ((Html.closing e).toList ++ rest)
  have hpast : Progress.mk (p.settle.read (.tag ⟨false, e.tag, Html.attributesOf e, false⟩)) "" =
      p.past (.tag e.tag (Html.attributesOf e) []) := by
    rw [Builder.read_void rfl (by simpa using hvoid)]
    rfl
  rw [hpast, Node.resume_closing h, Builder.read_stray rfl hstray] at hopen
  have hwritten : (Html.opening e ++ ">" ++ Html.closing e).toList ++ rest =
      (Html.opening e).toList ++ (Tag.writtenEnd false ++ ((Html.closing e).toList ++ rest)) := by
    simp [Tag.writtenEnd]
  rw [hwritten, hopen]
  rfl

mutual

/-- Reading on over a written tree is going past what is written of it. -/
theorem resume_toHostNode : ∀ {node : Markup}, node.Readable → ∀ {p : Progress},
    NoVoid p.builder.openNames → ∀ rest : List Char,
    p.resume ((Html.compact node.toHostNode).toList ++ rest) =
      (node.toHostNode.markup.foldl Progress.past p).resume rest
  | .text value, _, p, _, rest => by
    have hwritable : (Node.ofText value).Writable := trivial
    exact Node.resume_compact hwritable p rest
  | .tag name attributes children, h, p, hopened, rest => by
    rw [Readable] at h
    obtain ⟨hfirst, hchildless, hchildren⟩ := h
    have hlegible := legible_of_readable hfirst (toHostNodes children)
    rw [toHostNode, Html.compact, Node.markup]
    split
    · exact Node.resume_voidElement hlegible p rest
    · by_cases hvoid : name.toLower ∈ voidTags
      · cases hchildless hvoid
        rw [toHostNodes, Html.compactAll, Node.markupOfAll, String.append_empty]
        exact resume_emptyElement hlegible hvoid hopened rest
      · exact Node.resume_element hlegible hvoid p rest fun rest =>
          resume_toHostNodes hchildren (p.noVoid_openTag hopened hvoid _) rest

/-- Reading what nodes of markup are written as goes past these nodes, wherever the reader
stands. -/
theorem resume_toHostNodes : ∀ {nodes : List Markup}, ReadableAll nodes → ∀ {p : Progress},
    NoVoid p.builder.openNames → ∀ rest : List Char,
    p.resume ((Html.compactAll (toHostNodes nodes)).toList ++ rest) =
      ((Node.markupOfAll (toHostNodes nodes)).foldl Progress.past p).resume rest
  | [], _, _, _, _ => rfl
  | node :: nodes, h, p, hopened, rest => by
    rw [ReadableAll] at h
    have hbehind : NoVoid (node.toHostNode.markup.foldl Progress.past p).builder.openNames := by
      rw [Progress.openNames_foldl_past]
      exact hopened
    rw [toHostNodes, Html.compactAll, Node.markupOfAll, String.toList_append, List.append_assoc,
      resume_toHostNode h.1 hopened, resume_toHostNodes h.2 hbehind, List.foldl_append]

end

/-! ## The text that is found -/

/-- Markup as HTML, each node as plain tags. -/
def toHtml (ctx : RenderContext) (nodes : List Markup) : String :=
  String.join ((toHostNodes nodes).map (Html.render ctx))

/-- Plain tags are written without being expanded. -/
theorem toHtml_eq_compactAll (ctx : RenderContext) (nodes : List Markup) :
    toHtml ctx nodes = Html.compactAll (toHostNodes nodes) := by
  induction nodes with
  | nil => rfl
  | cons node nodes ih =>
    have hexpanded := Node.expanded_of_componentDepth_eq_zero (Node.componentDepth_toHostNode node)
    have hjoin : toHtml ctx (node :: nodes) =
        Html.render ctx node.toHostNode ++ toHtml ctx nodes := by
      simp [toHtml, toHostNodes]
    rw [hjoin, ih, Html.render, Node.expand_of_expanded hexpanded]
    rfl

/-- Markup that is written as HTML and read again. -/
theorem parse_toHtml (ctx : RenderContext) (h : ReadableAll nodes) :
    parse (toHtml ctx nodes) = join (Node.markupOfAll (toHostNodes nodes)) := by
  have hnone : NoVoid Progress.start.builder.openNames :=
    fun _ hname => absurd hname List.not_mem_nil
  rw [toHtml_eq_compactAll]
  exact parse_eq_join fun rest => resume_toHostNodes h hnone rest

mutual

/-- The text of written markup is what is read of it. -/
theorem textContents_markup : ∀ node : Markup,
    textContents (Node.markup node.toHostNode) = writtenText node
  | .text value => by
    rw [toHostNode, Node.ofText, Node.markup, textContents, textContents, String.append_empty,
      textContent, writtenText]
  | .tag name attributes children => by
    rw [toHostNode, Node.markup, writtenText, textContents, textContents, String.append_empty,
      textContent]
    have hwritten : Html.isVoid
        ⟨none, .host name, propsOf attributes, [], toHostNodes children⟩ = true ↔
          name ∈ Html.voidElements := List.contains_iff_mem
    by_cases hvoid : name ∈ Html.voidElements
    · rw [if_pos hvoid, if_pos (hwritten.2 hvoid), textContents]
    · rw [if_neg hvoid, if_neg (fun h => hvoid (hwritten.1 h)),
        textContents_join, textContents_markupOfAll children]

/-- What is written of a tree says what stands outside of void elements. -/
theorem textContents_markupOfAll : ∀ nodes : List Markup,
    textContents (Node.markupOfAll (toHostNodes nodes)) = writtenTexts nodes
  | [] => rfl
  | node :: nodes => by
    rw [toHostNodes, Node.markupOfAll, textContents_append, textContents_markup node,
      textContents_markupOfAll nodes, writtenTexts]

end

/-- The text that is found in the HTML of markup stands outside of void elements. -/
theorem textContents_parse_toHtml (ctx : RenderContext) (h : ReadableAll nodes) :
    textContents (parse (toHtml ctx nodes)) = writtenTexts nodes := by
  rw [parse_toHtml ctx h, textContents_join, textContents_markupOfAll]

/-! ## Lost text -/

mutual

/-- What is written of a text is no longer than the text. -/
theorem length_writtenText_le : ∀ node : Markup,
    (writtenText node).length ≤ (textContent node).length
  | .text value => Nat.le_refl _
  | .tag name attributes children => by
    rw [writtenText, textContent]
    split
    · exact Nat.zero_le _
    · exact length_writtenTexts_le children

/-- Written trees have no more text than the trees. -/
theorem length_writtenTexts_le : ∀ nodes : List Markup,
    (writtenTexts nodes).length ≤ (textContents nodes).length
  | [] => Nat.le_refl _
  | node :: nodes => by
    have hfirst := length_writtenText_le node
    have hrest := length_writtenTexts_le nodes
    rw [writtenTexts, textContents, String.length_append, String.length_append]
    omega

end

mutual

/-- A tree keeps its text exactly if no void tag in it holds any. -/
theorem writtenText_eq_iff : ∀ {node : Markup}, node.Readable →
    (writtenText node = textContent node ↔ node.KeepsText)
  | .text value, _ => by simp [writtenText, textContent, KeepsText]
  | .tag name attributes children, h => by
    rw [Readable] at h
    obtain ⟨-, hchildless, hchildren⟩ := h
    rw [writtenText, textContent, KeepsText]
    by_cases hwritten : name ∈ Html.voidElements
    · rw [if_pos hwritten]
      by_cases hvoid : name ∈ voidTags
      · -- Void tags of markup are written in small letters, so nothing stands inside this one.
        have hlower : ∀ tag ∈ voidTags, tag.toLower ∈ voidTags := by
          decide +kernel
        rw [hchildless (hlower name hvoid), if_neg fun h => h.2 hvoid]
        exact iff_of_true rfl trivial
      · rw [if_pos ⟨hwritten, hvoid⟩]
        exact eq_comm
    · rw [if_neg hwritten, if_neg fun h => hwritten h.1]
      exact writtenTexts_eq_iff hchildren

/-- All text is written exactly if none stands inside a tag that is void for HTML only. -/
theorem writtenTexts_eq_iff : ∀ {nodes : List Markup}, ReadableAll nodes →
    (writtenTexts nodes = textContents nodes ↔ KeepsTextAll nodes)
  | [], _ => by simp [writtenTexts, textContents, KeepsTextAll]
  | node :: nodes, h => by
    rw [ReadableAll] at h
    rw [KeepsTextAll, ← writtenText_eq_iff h.1, ← writtenTexts_eq_iff h.2, writtenTexts,
      textContents]
    constructor
    · intro heq
      -- Neither part is longer than its text, so neither is shorter.
      have hfirst := length_writtenText_le node
      have hrest := length_writtenTexts_le nodes
      have hchars := congrArg String.toList heq
      rw [String.toList_append, String.toList_append] at hchars
      have hlength := congrArg List.length hchars
      simp only [List.length_append, String.length_toList] at hlength
      have hsame : (writtenText node).toList.length = (textContent node).toList.length := by
        simp only [String.length_toList]
        omega
      obtain ⟨hnode, hnodes⟩ := List.append_inj hchars hsame
      exact ⟨String.toList_inj.1 hnode, String.toList_inj.1 hnodes⟩
    · rintro ⟨hfirst, hrest⟩
      rw [hfirst, hrest]

end

/-- The text of a source is found in the HTML of its markup exactly if no text stands inside a tag
that is a void element in HTML and no void tag in markup; whatever stands there is not found. -/
theorem text_written_iff (ctx : RenderContext) (source : String) :
    textContents (parse (toHtml ctx (parse source))) = writtenTexts (parse source) ∧
      (textContents (parse (toHtml ctx (parse source))) = textContents (parse source) ↔
        KeepsTextAll (parse source)) := by
  have hreadable := readableAll_parse source
  rw [textContents_parse_toHtml ctx hreadable]
  exact ⟨rfl, writtenTexts_eq_iff hreadable⟩

/-- The text behind a tag that only HTML takes for a void element is lost. -/
theorem exists_lost_text :
    ¬ ∀ (ctx : RenderContext) (source : String),
      textContents (parse (toHtml ctx (parse source))) = textContents (parse source) := by
  intro h
  have hlost := h ⟨.standard, none⟩ "<col>a"
  have hfound : textContents (parse (toHtml ⟨.standard, none⟩ (parse "<col>a"))) = "" := by
    rw [toHtml_eq_compactAll]
    decide +kernel
  have htext : textContents (parse "<col>a") = "a" := by decide +kernel
  rw [hfound, htext] at hlost
  exact absurd hlost (by decide)

end Markup

end ViewSchema
