import ViewSchema.Proofs.Node.Passing

/-!
# Rendering nests components no deeper

Renderers put the children and the rendered props of their element onto plain tags and never
make components.  So a rendered component is nested less deep than the component was, and
as many levels of expansion as components are nested leave none behind.

Main results:

- Theorem `Renderer.componentDepth_render_le`: the components in what a renderer produces
  come from the children and the rendered props of its element.
- Theorem `Renderer.componentDepth_render_lt`: rendering a component lowers the depth.
-/

namespace ViewSchema

namespace Node

/-! ## Depths of lists -/

/-- A rendered prop is nested no deeper than the rendered props it stands among. -/
theorem componentDepth_le_renderedDepths {rendered : List (String × Node)} {name : String}
    {node : Node} (h : rendered.lookup name = some node) :
    node.componentDepth ≤ renderedDepths rendered := by
  induction rendered with
  | nil => simp at h
  | cons field rest ih =>
    rw [Fields.lookup_cons] at h
    rw [renderedDepths]
    split at h
    · cases h
      exact Nat.le_max_left _ _
    · exact Nat.le_trans (ih h) (Nat.le_max_right _ _)

/-- A box is nested as deep as what is put into it. -/
theorem componentDepth_box (tag classes : String) (children : List Node) :
    (Render.box tag classes children).componentDepth = componentDepths children :=
  componentDepth_append ((Element.BareHost.ofHost tag).withClasses _) children

/-- A plain box adds no level of components to what is in it. -/
theorem componentDepth_plainBox (tag : String) (children : List Node) :
    (Render.plainBox tag children).componentDepth = componentDepths children :=
  componentDepth_append (.ofHost tag) children

/-- Members of a mapped list without components have none. -/
theorem componentDepths_map_eq_zero {α : Type} {f : α → Node}
    (h : ∀ x, (f x).componentDepth = 0) (xs : List α) : componentDepths (xs.map f) = 0 := by
  induction xs with
  | nil => rfl
  | cons x xs ih => simp [componentDepths, h, ih]

mutual

/-- Markup has no components. -/
theorem componentDepth_toHostNode : ∀ m : Markup, (m.toHostNode).componentDepth = 0
  | .text _ => rfl
  | .tag _ _ children => by
    simp only [Markup.toHostNode, componentDepth]
    exact componentDepths_toHostNodes children

/-- Markup has no components. -/
theorem componentDepths_toHostNodes :
    ∀ ms : List Markup, componentDepths (Markup.toHostNodes ms) = 0
  | [] => rfl
  | m :: ms => by
    simp [Markup.toHostNodes, componentDepths, componentDepth_toHostNode m,
      componentDepths_toHostNodes ms]

end

end Node

/-! ## Renderers -/

namespace Render

open Node

/-- A part in a box of its own is nested no deeper than the rendered props. -/
theorem componentDepths_part_le (tag classes : String) (e : Element Node) (name : String) :
    componentDepths (part tag classes (e.rendered? name)) ≤ renderedDepths e.rendered := by
  unfold part
  split
  · rename_i node hnode
    simpa [componentDepths, componentDepth_box] using componentDepth_le_renderedDepths hnode
  · exact Nat.zero_le _

/-- The shell of a field is nested no deeper than the children and the rendered props, around a
control without components. -/
theorem componentDepth_fieldShell_le (e : Element Node) (kind : String) (control : Element Node)
    (labelAfter : Bool) (hcontrol : (Node.element control).componentDepth = 0) :
    (fieldShell e kind control labelAfter).componentDepth ≤
      max (componentDepths e.children) (renderedDepths e.rendered) := by
  have hmessage := componentDepths_part_le "small" "form-text" e "message"
  have herror := componentDepths_part_le "div" "invalid-feedback" e "errorMessage"
  have hlabel : ∀ node, e.rendered? "label" = some node →
      node.componentDepth ≤ renderedDepths e.rendered := fun node =>
    componentDepth_le_renderedDepths
  have hhost : ∀ node, (Node.element (((Element.host "label").withProp "for"
      (.string ((e.string? "name").getD ""))).append [node])).componentDepth =
        node.componentDepth := by
    intro node
    rw [componentDepth_append ((Element.BareHost.ofHost "label").withProp _ _)]
    simp [componentDepths]
  cases hfind : e.rendered? "label" with
  | none =>
    cases labelAfter
    all_goals
      simp only [fieldShell, hfind, componentDepth_box, componentDepths_append, componentDepths,
        hcontrol, if_true, Bool.false_eq_true, if_false]
      omega
  | some node =>
    have hle := hlabel node hfind
    cases labelAfter
    all_goals
      simp only [fieldShell, hfind, componentDepth_box, componentDepths_append, componentDepths,
        hcontrol, hhost, if_true, Bool.false_eq_true, if_false]
      omega

end Render

namespace Element.BareHost

variable {e : Element Node}

/-- A bare host has no components. -/
theorem componentDepth (h : e.BareHost) : (Node.element e).componentDepth = 0 := by
  obtain ⟨tag, htag⟩ := h.host
  simp [Node.componentDepth, htag, h.childless, Node.componentDepths]

/-- Leaving out a prop leaves a host bare. -/
theorem dropProp (h : e.BareHost) (name : String) : (Render.dropProp e name).BareHost :=
  ⟨h.host, h.childless⟩

/-- The control that is made for a field is bare. -/
theorem control (source : Element Node) (tag : String) :
    (Render.control source tag).BareHost := by
  unfold Render.control
  dsimp only
  refine copyProps ?_ source _
  split
  · exact ((hostFrom source tag _).withProp _ _).withProp _ _
  · exact (((hostFrom source tag _).withProp _ _).withProp _ _).withProp _ _

end Element.BareHost

namespace Render

open Node

variable (e : Element Node) (ctx : RenderContext)

/-! ## Renderers that show neither children nor rendered props -/

/-- A host that is made for an element has no components yet. -/
theorem componentDepth_hostFrom (tag classes : String) :
    (Node.element (hostFrom e tag classes)).componentDepth = 0 :=
  (Element.BareHost.hostFrom e tag classes).componentDepth

/-- The cells of a table are texts. -/
theorem componentDepth_table : (table e).componentDepth = 0 := by
  have hrow : ∀ row : Json, (plainBox "tr" ((row.array?.getD []).map fun cell =>
      plainBox "td" [.ofText cell.displayText])).componentDepth = 0 := fun row => by
    rw [componentDepth_plainBox, componentDepths_map_eq_zero fun _ => rfl]
  have hhead : ∀ columns : List Json, componentDepths (columns.map fun c =>
      plainBox "th" [.ofText (labelOf c).displayText]) = 0 :=
    componentDepths_map_eq_zero fun _ => rfl
  rw [table, componentDepth_append (.hostFrom e _ _)]
  simp [componentDepths, componentDepth_plainBox, hhead, componentDepths_map_eq_zero hrow]

/-- Icons are rendered without components. -/
theorem componentDepth_icons : (icons e ctx).componentDepth = 0 := by
  unfold icons
  dsimp only
  split
  · exact componentDepth_hostFrom e _ _
  · rw [componentDepth_append ((((Element.BareHost.hostFrom e _ _).withProp _ _).withProp _
      _).withProp _ _)]
    exact componentDepths_map_eq_zero (fun _ => rfl) _

/-- A chart is rendered without components. -/
theorem componentDepth_chart : (chart e ctx).componentDepth = 0 := by
  unfold chart
  dsimp only
  split
  · exact componentDepth_hostFrom e _ _
  · exact (((Element.BareHost.hostFrom e _ _).withProp _ _).withProp _ _).componentDepth

/-- An image is rendered without components. -/
theorem componentDepth_image : (image e).componentDepth = 0 :=
  (((Element.BareHost.hostFrom e _ _).withProp _ _).copyProps e _).componentDepth

/-- A drawing is markup. -/
theorem componentDepth_svg : (svg e ctx).componentDepth = 0 := by
  unfold svg
  dsimp only
  split
  · exact componentDepth_hostFrom e _ _
  · rw [componentDepth_append (.hostFrom e _ _), componentDepths_toHostNodes]

/-- A placeholder has no components. -/
theorem componentDepth_loadingPlaceholder (name : String) :
    (loadingPlaceholder name).componentDepth = 0 :=
  (((Element.BareHost.ofHost "div").withClasses _).withProp _ _).componentDepth

/-- An option has no components. -/
theorem componentDepth_selectOption (selected : Option String) (option : Json) :
    (selectOption selected option).componentDepth = 0 := by
  have hbare : ((Element.host "option" : Element Node).withProp "value"
      (.string ((option.member? "value").getD option).displayText)).BareHost :=
    (Element.BareHost.ofHost "option").withProp _ _
  unfold selectOption
  dsimp only
  split
  · rw [componentDepth_append (hbare.withProp _ _)]
    rfl
  · rw [componentDepth_append hbare]
    rfl

/-! ## Renderers that show rendered props -/

/-- A card has its children in a box, between two of its rendered props. -/
theorem componentDepth_card_le : (card e).componentDepth ≤
    max (componentDepths e.children) (renderedDepths e.rendered) := by
  have hheader := componentDepths_part_le "header" "card-header" e "header"
  have hfooter := componentDepths_part_le "footer" "card-footer" e "footer"
  simp only [card, componentDepth_append (.hostFrom e _ _), componentDepths_append,
    componentDepths, componentDepth_box]
  omega

/-- The control of a select field has its options for children. -/
theorem componentDepth_selectField_le : (selectField e).componentDepth ≤
    max (componentDepths e.children) (renderedDepths e.rendered) := by
  refine componentDepth_fieldShell_le e _ _ _ ?_
  rw [componentDepth_append ((Element.BareHost.control e _).dropProp _)]
  exact componentDepths_map_eq_zero (componentDepth_selectOption _) _

/-- The control of a textarea field has its value for a text. -/
theorem componentDepth_textareaField_le : (textareaField e).componentDepth ≤
    max (componentDepths e.children) (renderedDepths e.rendered) := by
  refine componentDepth_fieldShell_le e _ _ _ ?_
  rw [componentDepth_append (((Element.BareHost.control e _).dropProp _).copyProps e _)]
  rfl

/-- A field for a checkbox has the components that it is given, as children or as labels. -/
theorem componentDepth_checkboxField_le : (checkboxField e).componentDepth ≤
    max (componentDepths e.children) (renderedDepths e.rendered) := by
  refine componentDepth_fieldShell_le e _ _ _ ?_
  have hbare := ((Element.BareHost.control e "input").withProp "type" (.string "checkbox")).dropProp
    "value"
  split
  · exact (hbare.withProp _ _).componentDepth
  · exact hbare.componentDepth

end Render

namespace Renderer

open Node Render

/-- The components in what a renderer produces come from the children and the rendered props
of its element. -/
theorem componentDepth_render_le (renderer : Renderer) (ctx : RenderContext)
    (e : Element Node) :
    (renderer.render ctx e).componentDepth ≤
      max (componentDepths e.children) (renderedDepths e.rendered) := by
  by_cases hpass : renderer.passesChildren ctx = true
  · rw [(shows_render hpass e).componentDepth]
    exact Nat.le_max_left _ _
  -- What does not pass its children on shows nothing of its element, or is a card or a field.
  have hnone : ∀ {node : Node}, node.componentDepth = 0 → node.componentDepth ≤
      max (componentDepths e.children) (renderedDepths e.rendered) := fun h =>
    Nat.le_trans (Nat.le_of_eq h) (Nat.zero_le _)
  cases renderer with
  | table => exact hnone (componentDepth_table e)
  | icons => exact hnone (componentDepth_icons e ctx)
  | errorView => exact Nat.zero_le _
  | chart => exact hnone (componentDepth_chart e ctx)
  | image => exact hnone (componentDepth_image e)
  | svg => exact hnone (componentDepth_svg e ctx)
  | container =>
    cases hviewport : ctx.viewport with
    | none =>
      rw [Renderer.render, Render.container, hviewport]
      exact hnone (componentDepth_loadingPlaceholder _)
    | some viewport => simp [passesChildren, hviewport] at hpass
  | card => exact componentDepth_card_le e
  | field =>
    have hbare := (Element.BareHost.control e "input").withProp "type"
      (.string ((e.string? "type").getD "text"))
    exact componentDepth_fieldShell_le e _ _ _ hbare.componentDepth
  | selectField => exact componentDepth_selectField_le e
  | textareaField => exact componentDepth_textareaField_le e
  | checkboxField => exact componentDepth_checkboxField_le e
  | _ => exact absurd rfl hpass

/-- Rendering a component lowers the depth of components. -/
theorem componentDepth_render_lt (renderer : Renderer) (ctx : RenderContext)
    {e : Element Node} {d : Descriptor} (h : e.kind = .component d) :
    (renderer.render ctx e).componentDepth < (Node.element e).componentDepth := by
  have hle := componentDepth_render_le renderer ctx e
  simp only [componentDepth, h]
  omega

end Renderer

end ViewSchema
