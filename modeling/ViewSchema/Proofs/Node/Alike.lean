import ViewSchema.Node.Html
import ViewSchema.Proofs.Node.Expansion

/-!
# Trees that look alike

Two lists of nodes are alike when they differ only in what cannot be seen: keys, fragments,
nodes that are nothing, and the order of the props of components.  Renderers read props by
name and put children into place as they are, so alike trees are rendered and written as the
same HTML.

Main results:

- Definition `Node.Alike`: lists of nodes without visible difference.
- Theorem `Renderer.alike_render`: renderers turn alike elements into alike trees.
- Theorem `Html.render_eq_of_alike`: alike trees have the same HTML.
-/

namespace ViewSchema

namespace Node

/-- Lists of nodes without visible difference. Nothing and the borders of fragments may stand
anywhere; plain tags have equal props, components have props and rendered props that look up
alike. -/
inductive Alike : List Node → List Node → Prop
  | nil : Alike [] []
  | nothingLeft {xs ys : List Node} : Alike xs ys → Alike (.nothing :: xs) ys
  | nothingRight {xs ys : List Node} : Alike xs ys → Alike xs (.nothing :: ys)
  | fragmentLeft {key : Option String} {children xs ys : List Node} :
      Alike (children ++ xs) ys → Alike (.fragment key children :: xs) ys
  | fragmentRight {key : Option String} {children xs ys : List Node} :
      Alike xs (children ++ ys) → Alike xs (.fragment key children :: ys)
  | text {key key' : Option String} {value : String} {xs ys : List Node} :
      Alike xs ys → Alike (.text key value :: xs) (.text key' value :: ys)
  | host {e e' : Element Node} {tag : String} {xs ys : List Node} :
      e.kind = .host tag → e'.kind = .host tag → e.props = e'.props →
        Alike e.children e'.children → Alike xs ys →
          Alike (.element e :: xs) (.element e' :: ys)
  | component {e e' : Element Node} {d : Descriptor} {xs ys : List Node} :
      e.kind = .component d → e'.kind = .component d →
        (∀ name, e.prop? name = e'.prop? name) →
        Fields.names e.rendered = Fields.names e'.rendered →
        (∀ pair ∈ e.rendered.zip e'.rendered, Alike [pair.1.2] [pair.2.2]) →
        Alike e.children e'.children → Alike xs ys →
          Alike (.element e :: xs) (.element e' :: ys)

/-- Named trees that are alike, name by name. -/
inductive AlikeFields : List (String × Node) → List (String × Node) → Prop
  | nil : AlikeFields [] []
  | cons {name : String} {node node' : Node} {rest rest' : List (String × Node)} :
      Alike [node] [node'] → AlikeFields rest rest' →
        AlikeFields ((name, node) :: rest) ((name, node') :: rest')

namespace Alike

variable {xs ys xs' ys' : List Node}

/-- Lists that are alike piece by piece are alike. -/
theorem append (h : Alike xs ys) (h' : Alike xs' ys') : Alike (xs ++ xs') (ys ++ ys') := by
  induction h with
  | nil => exact h'
  | nothingLeft _ ih => exact .nothingLeft ih
  | nothingRight _ ih => exact .nothingRight ih
  | fragmentLeft _ ih =>
    rw [List.append_assoc] at ih
    exact .fragmentLeft ih
  | fragmentRight _ ih =>
    rw [List.append_assoc] at ih
    exact .fragmentRight ih
  | text _ ih => exact .text ih
  | host hkind hkind' hprops hchildren _ _ ih => exact .host hkind hkind' hprops hchildren ih
  | component hkind hkind' hprops hnames htrees hchildren _ _ _ ih =>
    exact .component hkind hkind' hprops hnames htrees hchildren ih

/-- A fragment is alike to what its children are alike to. -/
theorem fragment {key : Option String} (h : Alike xs ys) : Alike [.fragment key xs] ys :=
  .fragmentLeft (by simpa only [List.append_nil] using h)

/-- What is alike to a list that starts with nothing is alike to the rest of it. -/
theorem of_nothing (h : Alike (.nothing :: xs) ys) : Alike xs ys := by
  generalize hstart : Node.nothing :: xs = start at h
  induction h with
  | nil => cases hstart
  | nothingLeft h => cases hstart; exact h
  | nothingRight _ ih => exact .nothingRight (ih hstart)
  | fragmentRight _ ih => exact .fragmentRight (ih hstart)
  | fragmentLeft | text | host | component => cases hstart

/-- A single node that is dropped when it is nothing. -/
theorem filter_singleton {node : Node} (h : Alike [node] ys) :
    Alike ([node].filter fun n => !n.isNothing) ys := by
  cases node with
  | nothing => exact h.of_nothing
  | _ => exact h

mutual

/-- A node is alike to itself. -/
theorem refl_node : ∀ node : Node, Alike [node] [node]
  | .nothing => .nothingLeft (.nothingRight .nil)
  | .text _ _ => .text .nil
  | .fragment _ children => by
    have hchildren : Alike (children ++ []) (children ++ []) := by
      simpa only [List.append_nil] using refl children
    exact .fragmentLeft (.fragmentRight hchildren)
  | .element ⟨_, .host _, _, _, children⟩ => .host rfl rfl rfl (refl children) .nil
  | .element ⟨_, .component _, _, rendered, children⟩ =>
    .component rfl rfl (fun _ => rfl) rfl (refl_fields rendered) (refl children) .nil

/-- A list is alike to itself. -/
theorem refl : ∀ xs : List Node, Alike xs xs
  | [] => .nil
  | x :: xs => (refl_node x).append (refl xs)

/-- Named trees are like themselves. -/
theorem refl_fields : ∀ rendered : List (String × Node),
    ∀ pair ∈ rendered.zip rendered, Alike [pair.1.2] [pair.2.2]
  | [], _, h => by simp at h
  | (_, node) :: rest, pair, h => by
    rw [List.zip_cons_cons, List.mem_cons] at h
    rcases h with rfl | h
    · exact refl_node node
    · exact refl_fields rest pair h

end

/-- Alike lists have the same text. -/
theorem textContents_eq (h : Alike xs ys) : textContents xs = textContents ys := by
  induction h with
  | nil => rfl
  | nothingLeft _ ih | nothingRight _ ih => simpa [textContent] using ih
  | fragmentLeft _ ih | fragmentRight _ ih => simpa [textContent] using ih
  | text _ ih => simp [textContent, ih]
  | host _ _ _ _ _ ih ih' => simp [textContent, ih, ih']
  | component _ _ _ _ _ _ _ _ ih ih' => simp [textContent, ih, ih']

end Alike

/-- Depths of named trees that are equal, name by name. -/
theorem renderedDepths_eq {rendered rendered' : List (String × Node)}
    (hnames : Fields.names rendered = Fields.names rendered')
    (htrees : ∀ pair ∈ rendered.zip rendered',
      componentDepths [pair.1.2] = componentDepths [pair.2.2]) :
    renderedDepths rendered = renderedDepths rendered' := by
  induction rendered generalizing rendered' with
  | nil =>
    cases rendered' with
    | nil => rfl
    | cons => cases hnames
  | cons field rest ih =>
    cases rendered' with
    | nil => cases hnames
    | cons field' rest' =>
      have hfirst := htrees (field, field') (by simp)
      have hrest := ih (List.cons.inj hnames).2 fun pair hpair => htrees pair (by simp [hpair])
      simp only [componentDepths, Nat.max_zero] at hfirst
      simp only [renderedDepths, hfirst, hrest]

/-- Alike lists nest components equally deep. -/
theorem Alike.componentDepths_eq {xs ys : List Node} (h : Alike xs ys) :
    componentDepths xs = componentDepths ys := by
  induction h with
  | nil => rfl
  | nothingLeft _ ih | nothingRight _ ih => simpa [componentDepths, componentDepth] using ih
  | fragmentLeft _ ih | fragmentRight _ ih =>
    simpa [componentDepths, componentDepth, componentDepths_append] using ih
  | text _ ih => simp [componentDepths, componentDepth, ih]
  | host hkind hkind' _ _ _ ih ih' => simp [componentDepths, componentDepth, hkind, hkind', ih, ih']
  | component hkind hkind' _ hnames _ _ _ htrees ih ih' =>
    simp [componentDepths, componentDepth, hkind, hkind', renderedDepths_eq hnames htrees, ih, ih']

namespace AlikeFields

variable {rendered rendered' others others' : List (String × Node)}

/-- Equal names with trees that are alike in each place. -/
theorem ofZip (hnames : Fields.names rendered = Fields.names rendered')
    (htrees : ∀ pair ∈ rendered.zip rendered', Alike [pair.1.2] [pair.2.2]) :
    AlikeFields rendered rendered' := by
  induction rendered generalizing rendered' with
  | nil =>
    cases rendered' with
    | nil => exact .nil
    | cons => cases hnames
  | cons field rest ih =>
    cases rendered' with
    | nil => cases hnames
    | cons field' rest' =>
      obtain ⟨name, node⟩ := field
      obtain ⟨name', node'⟩ := field'
      obtain ⟨rfl, hrest⟩ := List.cons.inj hnames
      exact .cons (htrees ((name, node), (name, node')) (by simp))
        (ih hrest fun pair hpair => htrees pair (by simp [hpair]))

/-- Named trees that are alike have the same names. -/
theorem names_eq (h : AlikeFields rendered rendered') :
    Fields.names rendered = Fields.names rendered' := by
  induction h with
  | nil => rfl
  | cons _ _ ih => simp [ih]

/-- Named trees that are alike are so pair by pair. -/
theorem trees (h : AlikeFields rendered rendered') :
    ∀ pair ∈ rendered.zip rendered', Alike [pair.1.2] [pair.2.2] := by
  induction h with
  | nil => simp
  | cons hfirst _ ih =>
    intro pair hpair
    rw [List.zip_cons_cons, List.mem_cons] at hpair
    rcases hpair with rfl | hrest
    · exact hfirst
    · exact ih pair hrest

/-- Named trees that are alike can be joined. -/
theorem append (h : AlikeFields rendered rendered') (h' : AlikeFields others others') :
    AlikeFields (rendered ++ others) (rendered' ++ others') := by
  induction h with
  | nil => exact h'
  | cons hfirst _ ih => exact .cons hfirst ih

/-- Setting one name to alike trees. -/
theorem set (h : AlikeFields rendered rendered') (name : String) {node node' : Node}
    (hnode : Alike [node] [node']) :
    AlikeFields (Fields.set rendered name node) (Fields.set rendered' name node') := by
  induction h with
  | nil => exact .cons hnode .nil
  | @cons other _ _ _ _ hfirst hrest ih =>
    by_cases hname : other = name
    · simp only [Fields.set, hname, if_true]
      exact .cons hnode hrest
    · simp only [Fields.set, hname, if_false]
      exact .cons hfirst ih

/-- Merging repeated names keeps the last trees, which are alike. -/
theorem ofList (h : AlikeFields rendered rendered') :
    AlikeFields (Fields.ofList rendered) (Fields.ofList rendered') := by
  have hset : ∀ {start start' : List (String × Node)}, AlikeFields start start' →
      AlikeFields (Fields.setAll start rendered) (Fields.setAll start' rendered') := by
    induction h with
    | nil => exact fun hstart => hstart
    | cons hfirst _ ih => exact fun hstart => ih (hstart.set _ hfirst)
  exact hset .nil

/-- A name is missing on both sides, or has alike trees. -/
theorem lookup (h : AlikeFields rendered rendered') (name : String) :
    (rendered.lookup name = none ∧ rendered'.lookup name = none) ∨
      ∃ node node', rendered.lookup name = some node ∧ rendered'.lookup name = some node' ∧
        Alike [node] [node'] := by
  induction h with
  | nil => exact .inl ⟨rfl, rfl⟩
  | @cons other node node' _ _ hfirst _ ih =>
    rw [Fields.lookup_cons, Fields.lookup_cons]
    by_cases heq : name = other
    · rw [if_pos heq, if_pos heq]
      exact .inr ⟨node, node', rfl, rfl, hfirst⟩
    · rw [if_neg heq, if_neg heq]
      exact ih

end AlikeFields

end Node

/-! ## Renderers -/

/-- Elements whose props, rendered props and children are alike. Their kinds and keys play no
part in rendering. -/
structure Element.Resembles (e e' : Element Node) : Prop where
  prop?_eq : ∀ name, e.prop? name = e'.prop? name
  rendered : Node.AlikeFields e.rendered e'.rendered
  children : Node.Alike e.children e'.children

namespace Node

/-- A bare tag with alike children in it. -/
theorem Alike.tag {e : Element Node} (he : e.BareHost) {xs ys : List Node} (h : Alike xs ys) :
    Alike [.element (e.append xs)] [.element (e.append ys)] := by
  obtain ⟨tag, htag⟩ := he.host
  refine .host htag htag rfl ?_ .nil
  simpa [Element.append, he.childless] using h

/-- Boxes around trees that are alike are alike. -/
theorem Alike.box (tag classes : String) {xs ys : List Node} (h : Alike xs ys) :
    Alike [Render.box tag classes xs] [Render.box tag classes ys] :=
  .tag ((Element.BareHost.ofHost tag).withClasses _) h

/-- Cells of two lists of nodes stand one behind the other. -/
theorem cellsOf_append (xs ys : List Node) :
    Render.cellsOf (xs ++ ys) = Render.cellsOf xs ++ Render.cellsOf ys := by
  induction xs with
  | nil => rfl
  | cons x xs ih => simp [Render.cellsOf, ih, List.append_assoc]

/-- Alike children fill alike cells. -/
theorem Alike.gridCells (tag : String) (columns : Json) {xs ys : List Node} (h : Alike xs ys)
    (start : Nat) :
    Alike (((Render.cellsOf xs).zipIdx start).map
        fun (child, i) => Render.gridCell tag columns i child)
      (((Render.cellsOf ys).zipIdx start).map
        fun (child, i) => Render.gridCell tag columns i child) := by
  have hcell : ∀ {x y : Node} {index : Nat}, Alike [x] [y] →
      Alike [Render.gridCell tag columns index x] [Render.gridCell tag columns index y] :=
    fun hxy => .tag (((Element.BareHost.ofHost tag).withKey _).withClasses _) hxy
  induction h generalizing start with
  | nil => exact .nil
  | nothingLeft _ ih | nothingRight _ ih => exact ih start
  | fragmentLeft _ ih | fragmentRight _ ih =>
    simpa only [Render.cellsOf, Render.cells, cellsOf_append] using ih start
  | text _ ih => exact (hcell (.text .nil)).append (ih (start + 1))
  | host hkind hkind' hprops hchildren _ _ ih =>
    exact (hcell (.host hkind hkind' hprops hchildren .nil)).append (ih (start + 1))
  | component hkind hkind' hprops hnames htrees hchildren _ _ _ ih =>
    exact (hcell (.component hkind hkind' hprops hnames htrees hchildren .nil)).append
      (ih (start + 1))

end Node

namespace Element.Resembles

open Render Node

variable {e e' : Element Node}

/-- Elements that are alike have the same texts for props. -/
theorem string?_eq (h : e.Resembles e') (name : String) : e.string? name = e'.string? name :=
  congrArg (·.bind Json.string?) (h.prop?_eq name)

/-- The host that is made for an element does not depend on its kind and key. -/
theorem hostFrom_eq (h : e.Resembles e') (tag classes : String) :
    hostFrom e tag classes = hostFrom e' tag classes := by
  simp only [hostFrom, elementClasses, Element.classes, h.prop?_eq, h.string?_eq]

/-- Elements that are alike hand over the same props. -/
theorem copyProps_eq (h : e.Resembles e') (host : Element Node) (names : List String) :
    copyProps host e names = copyProps host e' names := by
  simp only [copyProps, h.prop?_eq]

/-- Elements that are alike lay out the same table. -/
theorem tableOf_eq (h : e.Resembles e') : tableOf e = tableOf e' := by
  simp only [tableOf, h.prop?_eq]

/-- Elements that are alike link to the same target. -/
theorem linkTarget_eq (h : e.Resembles e') : linkTarget e = linkTarget e' := by
  simp only [linkTarget, h.string?_eq]

/-- Elements that are alike have the same classes of columns. -/
theorem columnClasses_eq (h : e.Resembles e') (ctx : RenderContext) :
    columnClasses e ctx = columnClasses e' ctx := by
  simp only [columnClasses, h.prop?_eq, h.tableOf_eq]

/-- A placeholder is only read for its text. -/
theorem control_eq (h : e.Resembles e') (tag : String) :
    Render.control e tag = Render.control e' tag := by
  have hplaceholder : (e.rendered? "placeholder").map textContent =
      (e'.rendered? "placeholder").map textContent := by
    rcases h.rendered.lookup "placeholder" with
      ⟨hnone, hnone'⟩ | ⟨node, node', hsome, hsome', halike⟩
    · rw [Element.rendered?, Element.rendered?, hnone, hnone']
    · have htext := halike.textContents_eq
      simp only [textContents_cons, textContents_nil, String.append_empty] at htext
      simp only [Element.rendered?, hsome, hsome', Option.map_some, htext]
  simp only [Render.control, hplaceholder, h.hostFrom_eq, h.string?_eq, h.copyProps_eq]

/-- Parts in boxes of their own. -/
theorem alike_part (h : e.Resembles e') (tag classes name : String) :
    Alike (part tag classes (e.rendered? name)) (part tag classes (e'.rendered? name)) := by
  rcases h.rendered.lookup name with ⟨hnone, hnone'⟩ | ⟨node, node', hsome, hsome', halike⟩
  · rw [Element.rendered?, Element.rendered?, hnone, hnone']
    exact .nil
  · rw [Element.rendered?, Element.rendered?, hsome, hsome']
    exact .box tag classes halike

/-- A field around one control. -/
theorem alike_fieldShell (h : e.Resembles e') (kind : String) (control : Element Node)
    (labelAfter : Bool) :
    Alike [fieldShell e kind control labelAfter] [fieldShell e' kind control labelAfter] := by
  have hcontrol : Alike [.element control] [.element control] := .refl _
  have hhost := (Element.BareHost.ofHost "label").withProp "for"
    (.string ((e'.string? "name").getD ""))
  have hmessage := h.alike_part "small" "form-text" "message"
  have herror := h.alike_part "div" "invalid-feedback" "errorMessage"
  rcases h.rendered.lookup "label" with ⟨hnone, hnone'⟩ | ⟨node, node', hsome, hsome', halike⟩
  · simp only [fieldShell, Element.rendered?, hnone, hnone']
    refine .box _ _ (((Alike.append ?_ hmessage).append herror).append h.children)
    cases labelAfter
    all_goals exact hcontrol
  · simp only [fieldShell, Element.rendered?, hsome, hsome', h.string?_eq]
    refine .box _ _ (((Alike.append ?_ hmessage).append herror).append h.children)
    cases labelAfter with
    | true => exact hcontrol.append (.tag hhost halike)
    | false => exact (Alike.tag hhost halike).append hcontrol

end Element.Resembles

namespace Renderer

open Node Render

/-- Renderers turn alike elements into alike trees. -/
theorem alike_render (renderer : Renderer) (ctx : RenderContext) {e e' : Element Node}
    (h : e.Resembles e') : Alike [renderer.render ctx e] [renderer.render ctx e'] := by
  have hhost : ∀ tag classes, (hostFrom e' tag classes).BareHost := fun tag classes =>
    .hostFrom e' tag classes
  cases renderer with
  | component =>
    simp only [Renderer.render, Render.component, h.prop?_eq, h.string?_eq, h.hostFrom_eq]
    split
    · exact .tag (hhost _ _) h.children
    · exact .fragment (.fragmentRight (by simpa only [List.append_nil] using h.children))
  | action =>
    simp only [Renderer.render, Render.action, h.string?_eq, h.hostFrom_eq, h.copyProps_eq]
    exact .tag (((hhost _ _).withProp _ _).copyProps e' _) h.children
  | card =>
    simp only [Renderer.render, Render.card, h.hostFrom_eq]
    exact .tag (hhost _ _) (((h.alike_part _ _ _).append (.box _ _ h.children)).append
      (h.alike_part _ _ _))
  | container =>
    simp only [Renderer.render, Render.container, addBreakpoint, h.prop?_eq, h.string?_eq,
      h.hostFrom_eq, h.tableOf_eq]
    cases ctx.viewport with
    | none => exact .refl _
    | some viewport => exact .tag ((hhost _ _).withProp _ _) h.children
  | flexContainer =>
    simp only [Renderer.render, Render.flexContainer, h.prop?_eq, h.string?_eq, h.hostFrom_eq]
    exact .tag ((hhost _ _).withProp _ _) h.children
  | gridContainer =>
    simp only [Renderer.render, Render.gridContainer, h.string?_eq, h.hostFrom_eq,
      h.columnClasses_eq]
    exact .tag (hhost _ _) (h.children.gridCells _ _ 0)
  | controller =>
    simp only [Renderer.render, Render.controller, h.hostFrom_eq]
    exact .tag (hhost _ _) h.children
  | form =>
    simp only [Renderer.render, Render.form, h.hostFrom_eq, h.copyProps_eq]
    exact .tag ((hhost _ _).copyProps e' _) h.children
  | field =>
    simp only [Renderer.render, Render.field, h.string?_eq, h.control_eq]
    exact h.alike_fieldShell _ _ _
  | selectField =>
    simp only [Renderer.render, Render.selectField, h.prop?_eq, h.control_eq]
    exact h.alike_fieldShell _ _ _
  | textareaField =>
    simp only [Renderer.render, Render.textareaField, h.control_eq, h.copyProps_eq]
    exact h.alike_fieldShell _ _ _
  | checkboxField =>
    simp only [Renderer.render, Render.checkboxField, h.prop?_eq, h.control_eq]
    exact h.alike_fieldShell _ _ _
  | video =>
    simp only [Renderer.render, Render.video, h.hostFrom_eq, h.copyProps_eq]
    exact .tag ((hhost _ _).copyProps e' _) h.children
  | link =>
    simp only [Renderer.render, Render.link, h.hostFrom_eq, h.copyProps_eq, h.linkTarget_eq]
    exact .tag (((hhost _ _).copyProps e' _).withProp _ _) h.children
  | navLink =>
    simp only [Renderer.render, Render.navLink, h.prop?_eq, h.hostFrom_eq, h.copyProps_eq,
      h.linkTarget_eq]
    exact .tag (((hhost _ _).copyProps e' _).withProp _ _) h.children
  | table | icons | errorView | chart | image | svg =>
    -- These show neither children nor rendered props.
    simp only [Renderer.render, Render.table, Render.icons, Render.errorView, Render.chart,
      Render.image, Render.svg, h.prop?_eq, h.string?_eq, h.hostFrom_eq, h.copyProps_eq]
    exact .refl _

end Renderer

/-! ## HTML -/

namespace Node

/-- Components in a list of nodes are expanded node by node. -/
theorem mapComponentsIn_eq_map (f : Descriptor → Element Node → Node) (xs : List Node) :
    mapComponentsIn f xs = xs.map (mapComponents f) := by
  induction xs with
  | nil => rfl
  | cons x xs ih => rw [mapComponentsIn, ih, List.map_cons]

end Node

namespace Html

open Node

/-- Expand some levels of a list of trees and write it on one line. -/
def compactExpanded (ctx : RenderContext) (levels : Nat) (xs : List Node) : String :=
  compactAll (xs.map (expandLevels ctx levels))

/-- Nodes on one line stand one behind the other. -/
theorem compactAll_append (xs ys : List Node) :
    compactAll (xs ++ ys) = compactAll xs ++ compactAll ys := by
  induction xs with
  | nil => simp [compactAll]
  | cons x xs ih => simp [compactAll, ih, String.append_assoc]

/-- Elements of one kind with equal props are written alike around equal insides. -/
theorem compact_element_congr {e e' : Element Node} (hkind : e.kind = e'.kind)
    (hprops : e.props = e'.props) (hchildren : compactAll e.children = compactAll e'.children) :
    compact (.element e) = compact (.element e') := by
  have hvoid : isVoid e = isVoid e' := by rw [isVoid, isVoid, Element.tag, Element.tag, hkind]
  have hclosing : closing e = closing e' := by
    rw [closing, closing, Element.tag, Element.tag, hkind]
  have hclasses : classesOf e = classesOf e' := by
    simp only [classesOf, Element.classes, Element.prop?, hprops]
  have hopening : opening e = opening e' := by
    rw [opening, opening, attributes, attributes, Element.tag, Element.tag, hkind, hclasses, hprops]
  rw [compact, compact, hvoid, hopening, hclosing, hchildren]

/-- Keys are not written. -/
theorem compact_keyedAs (key : Option String) (node : Node) :
    compact (keyedAs key node) = compact node := by
  cases key with
  | none => rfl
  | some key =>
    cases node with
    | nothing => rfl
    | text key' value => cases key' <;> rfl
    | fragment key' children => cases key' <;> rfl
    | element e =>
      rw [keyedAs, keyIfMissing]
      split
      · rfl
      · exact compact_element_congr rfl rfl rfl

/-- Trees expanded level by level: nothing has no text. -/
theorem compact_expandLevels_nothing (ctx : RenderContext) (levels : Nat) :
    compact (expandLevels ctx levels .nothing) = "" := by
  cases levels <;> rfl

/-- A text is written the same however often components are expanded. -/
theorem compact_expandLevels_text (ctx : RenderContext) (levels : Nat) (key : Option String)
    (value : String) :
    compact (expandLevels ctx levels (.text key value)) = Entity.escapeText value := by
  cases levels <;> simp [expandLevels, mapComponents, compact]

/-- A fragment is written as its children. -/
theorem compact_expandLevels_fragment (ctx : RenderContext) (levels : Nat) (key : Option String)
    (children : List Node) :
    compact (expandLevels ctx levels (.fragment key children)) =
      compactExpanded ctx levels children := by
  cases levels with
  | zero => simp [expandLevels, compact, compactExpanded]
  | succ levels =>
    simp [expandLevels, mapComponents, compact, compactExpanded, mapComponentsIn_eq_map]

/-- A plain tag is written around its children. -/
theorem compact_expandLevels_host (ctx : RenderContext) (levels : Nat) {e e' : Element Node}
    {tag : String} (hkind : e.kind = .host tag) (hkind' : e'.kind = .host tag)
    (hprops : e.props = e'.props)
    (hchildren : compactExpanded ctx levels e.children = compactExpanded ctx levels e'.children) :
    compact (expandLevels ctx levels (.element e)) =
      compact (expandLevels ctx levels (.element e')) := by
  cases levels with
  | zero =>
    have hsame : compactAll e.children = compactAll e'.children := by
      simpa [compactExpanded, expandLevels] using hchildren
    exact compact_element_congr (hkind.trans hkind'.symm) hprops hsame
  | succ levels =>
    simp only [expandLevels, mapComponents, hkind, hkind']
    refine compact_element_congr rfl hprops ?_
    rw [mapComponentsIn_eq_map, mapComponentsIn_eq_map]
    exact hchildren

/-- A component is written as what it is rendered to. -/
theorem compact_expandLevels_component (ctx : RenderContext) (levels : Nat) {e : Element Node}
    {d : Descriptor} (hkind : e.kind = .component d) :
    compact (expandLevels ctx (levels + 1) (.element e)) =
      compactExpanded ctx levels [d.renderer.render ctx e] := by
  simp [expandLevels, mapComponents, hkind, compact_keyedAs, compactExpanded, compactAll]

/-- The first of some nodes is expanded and written in front. -/
theorem compactExpanded_cons (ctx : RenderContext) (levels : Nat) (x : Node) (xs : List Node) :
    compactExpanded ctx levels (x :: xs) =
      compact (expandLevels ctx levels x) ++ compactExpanded ctx levels xs := rfl

/-- Two lists of nodes are expanded and written one behind the other. -/
theorem compactExpanded_append (ctx : RenderContext) (levels : Nat) (xs ys : List Node) :
    compactExpanded ctx levels (xs ++ ys) =
      compactExpanded ctx levels xs ++ compactExpanded ctx levels ys := by
  rw [compactExpanded, List.map_append, compactAll_append, compactExpanded, compactExpanded]

/-- With as many levels as components are nested, alike lists are written alike. The proof
goes by the levels, and at each of them by what stands around the components. -/
theorem compactExpanded_eq_of_alike (ctx : RenderContext) {levels : Nat} {xs ys : List Node}
    (h : Alike xs ys) (hdepth : componentDepths xs ≤ levels) :
    compactExpanded ctx levels xs = compactExpanded ctx levels ys := by
  induction levels using Nat.strongRecOn generalizing xs ys with
  | ind levels ihlevels =>
    induction h with
    | nil => rfl
    | nothingLeft _ ih =>
      rw [compactExpanded_cons, compact_expandLevels_nothing, String.empty_append]
      exact ih (by simpa [componentDepths, componentDepth] using hdepth)
    | nothingRight _ ih =>
      rw [compactExpanded_cons, compact_expandLevels_nothing, String.empty_append]
      exact ih hdepth
    | fragmentLeft _ ih =>
      rw [compactExpanded_cons, compact_expandLevels_fragment, ← compactExpanded_append]
      exact ih (by simpa [componentDepths, componentDepth, componentDepths_append] using hdepth)
    | fragmentRight _ ih =>
      rw [compactExpanded_cons, compact_expandLevels_fragment, ← compactExpanded_append]
      exact ih hdepth
    | text _ ih =>
      rw [componentDepths, Nat.max_le] at hdepth
      rw [compactExpanded_cons, compactExpanded_cons, compact_expandLevels_text,
        compact_expandLevels_text, ih hdepth.2]
    | host hkind hkind' hprops _ _ ih ih' =>
      simp only [componentDepths, componentDepth, hkind, Nat.max_le] at hdepth
      rw [compactExpanded_cons, compactExpanded_cons, ih' hdepth.2,
        compact_expandLevels_host ctx levels hkind hkind' hprops (ih hdepth.1)]
    | @component e e' d xs ys hkind hkind' hprops hnames htrees hchildren _ _ _ ih =>
      rw [componentDepths, Nat.max_le] at hdepth
      have hlt := d.renderer.componentDepth_render_lt ctx hkind
      obtain ⟨lower, rfl⟩ : ∃ lower, levels = lower + 1 := ⟨levels - 1, by omega⟩
      have hrender := d.renderer.alike_render ctx ⟨hprops, .ofZip hnames htrees, hchildren⟩
      have hrendered := ihlevels lower (Nat.lt_succ_self _) hrender
        (by simp only [componentDepths, Nat.max_zero]; omega)
      rw [compactExpanded_cons, compactExpanded_cons, ih hdepth.2,
        compact_expandLevels_component ctx lower hkind,
        compact_expandLevels_component ctx lower hkind', hrendered]

/-- Alike trees have the same HTML. -/
theorem render_eq_of_alike (ctx : RenderContext) {node node' : Node} (h : Alike [node] [node']) :
    render ctx node = render ctx node' := by
  have hrender : ∀ node : Node, render ctx node =
      compactExpanded ctx (node.componentDepth + 1) [node] := by
    intro node
    simp [render, expand, compactExpanded, compactAll]
  have hdepth : node.componentDepth = node'.componentDepth := by
    simpa [componentDepths] using h.componentDepths_eq
  rw [hrender, hrender, ← hdepth]
  exact compactExpanded_eq_of_alike ctx h (by simp [componentDepths])

end Html

end ViewSchema
