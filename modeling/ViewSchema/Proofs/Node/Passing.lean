import ViewSchema.Node.Expand

/-!
# Renderers that pass their children through

Many components only dress their children: they put them into a tag, into numbered cells or
into a fragment.  Expanding a tree of such components changes tags and props but neither
loses nor adds nor reorders text.

Main results:

- Definition `Renderer.passesChildren`: the renderers of this kind, in a render context.
- Theorem `Renderer.shows_render`: what these renderers produce.
- Theorem `Node.Passing.textContent_expand`: a tree of such components keeps its text when
  it is expanded.
-/

namespace ViewSchema

/-- Whether a renderer shows the children of its element and no text of its own. Containers
do so once the viewport is known. -/
def Renderer.passesChildren (ctx : RenderContext) : Renderer → Bool
  | .component | .action | .flexContainer | .gridContainer | .controller | .form | .video
  | .link | .navLink => true
  | .container => ctx.viewport.isSome
  | _ => false

/-! ## Plain tags without children -/

/-- A plain tag to which no children were added yet. -/
structure Element.BareHost (e : Element Node) : Prop where
  host : ∃ tag, e.kind = .host tag
  childless : e.children = []

namespace Element.BareHost

variable {e : Element Node}

/-- A new host element is bare. -/
theorem ofHost (tag : String) : (Element.host tag : Element Node).BareHost :=
  ⟨⟨tag, rfl⟩, rfl⟩

/-- A prop leaves a host bare. -/
theorem withProp (h : e.BareHost) (name : String) (value : Json) :
    (e.withProp name value).BareHost :=
  ⟨h.host, h.childless⟩

/-- A key leaves a host bare. -/
theorem withKey (h : e.BareHost) (key : String) : (e.withKey key).BareHost :=
  ⟨h.host, h.childless⟩

/-- Classes leave a host bare. -/
theorem withClasses (h : e.BareHost) (classes : ClassList) : (e.withClasses classes).BareHost := by
  unfold Element.withClasses
  split
  · exact h
  · exact h.withProp _ _

/-- A prop that may be missing leaves a host bare. -/
theorem setPresent (h : e.BareHost) (name : String) (value : Option Json) :
    (Render.setPresent e name value).BareHost := by
  unfold Render.setPresent
  split
  · exact h.withProp _ _
  · exact h

/-- Props that are taken over from another element leave a host bare. -/
theorem copyProps (h : e.BareHost) (source : Element Node) (names : List String) :
    (Render.copyProps e source names).BareHost := by
  unfold Render.copyProps
  induction names generalizing e with
  | nil => exact h
  | cons name rest ih => exact ih (h.setPresent name _)

/-- The host that a renderer makes for an element is bare. -/
theorem hostFrom (source : Element Node) (tag classes : String) :
    (Render.hostFrom source tag classes).BareHost := by
  have hclasses := (ofHost tag).withClasses ((Render.elementClasses source).add classes)
  have hstyled := hclasses.setPresent "style" ((source.prop? "style").filter Json.isObject)
  have hidentified := hstyled.setPresent "id" (source.prop? "id")
  exact ⟨hidentified.host, hidentified.childless⟩

end Element.BareHost

/-! ## What passing renderers produce -/

/-- Trees that show some children: in a fragment, in a plain tag, or each in a numbered
cell of one. -/
inductive Shows (children : List Node) : Node → Prop
  | fragment : Shows children (.ofList children)
  | tag {e : Element Node} : e.BareHost → Shows children (.element (e.append children))
  | cells {e : Element Node} (cellTag : String) (columns : Json) : e.BareHost →
      Shows children (.element (e.append ((Render.cellsOf children).zipIdx.map
        fun (child, i) => Render.gridCell cellTag columns i child)))

/-- A passing renderer shows the children of its element. -/
theorem Renderer.shows_render {renderer : Renderer} {ctx : RenderContext}
    (h : renderer.passesChildren ctx = true) (e : Element Node) :
    Shows e.children (renderer.render ctx e) := by
  cases renderer with
  | component =>
    simp only [Renderer.render, Render.component]
    split
    · exact .tag (.hostFrom e _ "")
    · exact .fragment
  | action =>
    exact .tag (((Element.BareHost.hostFrom e "button" "action").withProp _ _).copyProps e _)
  | container =>
    obtain ⟨viewport, hviewport⟩ := Option.isSome_iff_exists.1 h
    simp only [Renderer.render, Render.container, hviewport]
    exact .tag ((Element.BareHost.hostFrom e _ "container").withProp _ _)
  | flexContainer => exact .tag ((Element.BareHost.hostFrom e "div" "flex-container").withProp _ _)
  | gridContainer => exact .cells _ _ (.hostFrom e "div" "grid-container")
  | controller => exact .tag (.hostFrom e "div" "controller")
  | form => exact .tag ((Element.BareHost.hostFrom e "form" "form").copyProps e _)
  | video => exact .tag ((Element.BareHost.hostFrom e "video" "video").copyProps e _)
  | link => exact .tag (((Element.BareHost.hostFrom e "a" "").copyProps e _).withProp _ _)
  | navLink => exact .tag (((Element.BareHost.hostFrom e "a" _).copyProps e _).withProp _ _)
  | _ => simp [Renderer.passesChildren] at h

namespace Node

/-! ## Texts of lists -/

/-- No nodes have no text. -/
@[simp] theorem textContents_nil : textContents [] = "" := rfl

/-- The texts of nodes stand one behind the other. -/
@[simp] theorem textContents_cons (c : Node) (cs : List Node) :
    textContents (c :: cs) = c.textContent ++ textContents cs := rfl

/-- Texts of nodes can be joined in two goes. -/
@[simp] theorem textContents_append (xs ys : List Node) :
    textContents (xs ++ ys) = textContents xs ++ textContents ys := by
  induction xs with
  | nil => simp
  | cons x xs ih => simp [ih, String.append_assoc]

/-- A list of nodes has the same text as one node, however it is packed. -/
theorem textContent_ofList (children : List Node) :
    (ofList children).textContent = textContents children := rfl

/-- The text of an element is that of its children; it has none of its own. -/
theorem textContent_element (e : Element Node) :
    (element e).textContent = textContents e.children := by
  rw [textContent]

/-- What is nothing has no text. -/
theorem textContent_of_isNothing {node : Node} (h : node.isNothing = true) :
    node.textContent = "" := by
  cases node with
  | nothing => rfl
  | _ => simp [isNothing] at h

/-- A key has no text. -/
@[simp] theorem textContent_keyIfMissing (key : String) (node : Node) :
    (node.keyIfMissing key).textContent = node.textContent := by
  unfold keyIfMissing
  split
  · rfl
  · rfl
  · rfl
  · split
    · rfl
    · simp only [textContent_element, Element.withKey]
  · rfl

/-- A key changes no text. -/
@[simp] theorem textContent_keyedAs (key : Option String) (node : Node) :
    (keyedAs key node).textContent = node.textContent := by
  cases key with
  | none => rfl
  | some k => exact textContent_keyIfMissing k node

/-! ## Trees of passing components -/

mutual

/-- Every component among the descendants of a tree has a renderer that passes its children
through. Rendered props do not count. -/
def Passing (ctx : RenderContext) : Node → Prop
  | nothing => True
  | text _ _ => True
  | fragment _ children => PassingAll ctx children
  | element e =>
    (∀ d, e.kind = .component d → d.renderer.passesChildren ctx = true) ∧
      PassingAll ctx e.children

def PassingAll (ctx : RenderContext) : List Node → Prop
  | [] => True
  | c :: cs => Passing ctx c ∧ PassingAll ctx cs

end

variable {ctx : RenderContext}

/-- Nodes pass their children on if each of them does. -/
theorem passingAll_iff {children : List Node} :
    PassingAll ctx children ↔ ∀ c ∈ children, c.Passing ctx := by
  induction children with
  | nil => simp [PassingAll]
  | cons c cs ih => simp [PassingAll, ih]

/-- An element passes its children on if its component does and all inside it do. -/
theorem passing_element_iff {e : Element Node} :
    (element e).Passing ctx ↔
      (∀ d, e.kind = .component d → d.renderer.passesChildren ctx = true) ∧
        PassingAll ctx e.children := by
  rw [Passing]

/-- A plain tag passes when its children do. -/
theorem passing_append {e : Element Node} (h : e.BareHost) {children : List Node}
    (hchildren : PassingAll ctx children) : (element (e.append children)).Passing ctx := by
  rw [passing_element_iff]
  obtain ⟨tag, htag⟩ := h.host
  constructor
  · intro d hd
    simp [Element.append, htag] at hd
  · simpa [Element.append, h.childless] using hchildren

/-- A bare host shows the children that are put into it, and no more. -/
theorem textContent_append {e : Element Node} (h : e.BareHost) (children : List Node) :
    (element (e.append children)).textContent = textContents children := by
  simp [textContent_element, Element.append, h.childless]

/-- A bare host adds no level of components to its children. -/
theorem componentDepth_append {e : Element Node} (h : e.BareHost) (children : List Node) :
    (element (e.append children)).componentDepth = componentDepths children := by
  obtain ⟨tag, htag⟩ := h.host
  simp [componentDepth, Element.append, htag, h.childless]

/-- The levels of two lists of nodes are those of the one with more of them. -/
theorem componentDepths_append (xs ys : List Node) :
    componentDepths (xs ++ ys) = max (componentDepths xs) (componentDepths ys) := by
  induction xs with
  | nil => simp [componentDepths]
  | cons x xs ih => simp [componentDepths, ih, Nat.max_assoc]

/-! ## Cells -/

mutual

/-- Opening fragments into cells keeps the text. -/
theorem textContents_cells : ∀ node : Node, textContents (Render.cells node) = node.textContent
  | nothing => rfl
  | text _ _ => by simp [Render.cells, textContent]
  | fragment _ children => by
    rw [Render.cells, textContent]
    exact textContents_cellsOf children
  | element _ => by simp [Render.cells]

/-- Packing nodes into cells of a table changes no text. -/
theorem textContents_cellsOf :
    ∀ children : List Node, textContents (Render.cellsOf children) = textContents children
  | [] => rfl
  | c :: cs => by
    rw [Render.cellsOf, textContents_append, textContents_cells c, textContents_cellsOf cs,
      textContents_cons]

end

mutual

/-- The cells of a node have the levels of components that the node has. -/
theorem componentDepths_cells :
    ∀ node : Node, componentDepths (Render.cells node) = node.componentDepth
  | nothing => rfl
  | text _ _ => rfl
  | fragment _ children => by
    rw [Render.cells, componentDepth]
    exact componentDepths_cellsOf children
  | element _ => by simp [Render.cells, componentDepths]

/-- The cells of several nodes have the levels that the nodes have. -/
theorem componentDepths_cellsOf :
    ∀ children : List Node, componentDepths (Render.cellsOf children) = componentDepths children
  | [] => rfl
  | c :: cs => by
    rw [Render.cellsOf, componentDepths_append, componentDepths_cells c,
      componentDepths_cellsOf cs, componentDepths]

end

mutual

/-- The cells of a node pass on what the node passes on. -/
theorem passing_cells : ∀ {node : Node}, node.Passing ctx → PassingAll ctx (Render.cells node)
  | nothing, _ => trivial
  | text _ _, h => ⟨h, trivial⟩
  | fragment _ _, h => by
    rw [Render.cells]
    rw [Passing] at h
    exact passing_cellsOf h
  | element _, h => ⟨h, trivial⟩

/-- The cells of several nodes pass on what the nodes pass on. -/
theorem passing_cellsOf :
    ∀ {children : List Node}, PassingAll ctx children → PassingAll ctx (Render.cellsOf children)
  | [], _ => trivial
  | _ :: _, h => by
    rw [Render.cellsOf, passingAll_iff]
    intro c hc
    rcases List.mem_append.1 hc with hfirst | hrest
    · exact passingAll_iff.1 (passing_cells h.1) c hfirst
    · exact passingAll_iff.1 (passing_cellsOf h.2) c hrest

end

/-- A numbered cell is a plain tag around its child. -/
theorem gridCell_eq (tag : String) (columns : Json) (index : Nat) (child : Node) :
    ∃ e : Element Node, e.BareHost ∧
      Render.gridCell tag columns index child = element (e.append [child]) :=
  ⟨_, ((Element.BareHost.ofHost tag).withKey _).withClasses _, rfl⟩

/-- Numbering cells from any index on keeps their text. -/
theorem textContents_gridCells (tag : String) (columns : Json) (children : List Node)
    (start : Nat) :
    textContents ((children.zipIdx start).map
      fun (child, i) => Render.gridCell tag columns i child) = textContents children := by
  induction children generalizing start with
  | nil => rfl
  | cons c cs ih =>
    obtain ⟨e, he, heq⟩ := gridCell_eq tag columns start c
    simp only [List.zipIdx_cons, List.map_cons, textContents_cons, heq, textContent_append he,
      ih (start + 1), textContents_nil, String.append_empty]

/-- Cells of a grid add no level of components to the nodes inside. -/
theorem componentDepths_gridCells (tag : String) (columns : Json) (children : List Node)
    (start : Nat) :
    componentDepths ((children.zipIdx start).map
      fun (child, i) => Render.gridCell tag columns i child) = componentDepths children := by
  induction children generalizing start with
  | nil => rfl
  | cons c cs ih =>
    obtain ⟨e, he, heq⟩ := gridCell_eq tag columns start c
    simp [componentDepths, heq, componentDepth_append he, ih (start + 1)]

/-- Cells of a grid pass on what the nodes inside pass on. -/
theorem passing_gridCells (tag : String) (columns : Json) {children : List Node}
    (h : PassingAll ctx children) (start : Nat) :
    PassingAll ctx ((children.zipIdx start).map
      fun (child, i) => Render.gridCell tag columns i child) := by
  induction children generalizing start with
  | nil => trivial
  | cons c cs ih =>
    obtain ⟨e, he, heq⟩ := gridCell_eq tag columns start c
    refine ⟨?_, ih h.2 (start + 1)⟩
    simp only [heq]
    exact passing_append he ⟨h.1, trivial⟩

end Node

namespace Shows

variable {ctx : RenderContext} {children : List Node} {node : Node}

/-- Showing children shows their text. -/
theorem textContent (h : Shows children node) : node.textContent = Node.textContents children := by
  cases h with
  | fragment => rfl
  | tag he => exact Node.textContent_append he children
  | cells cellTag columns he =>
    rw [Node.textContent_append he, Node.textContents_gridCells, Node.textContents_cellsOf]

/-- Showing children nests components no deeper. -/
theorem componentDepth (h : Shows children node) :
    node.componentDepth = Node.componentDepths children := by
  cases h with
  | fragment => rfl
  | tag he => exact Node.componentDepth_append he children
  | cells cellTag columns he =>
    rw [Node.componentDepth_append he, Node.componentDepths_gridCells,
      Node.componentDepths_cellsOf]

/-- Showing children brings in no other components. -/
theorem passing (h : Shows children node) (hchildren : Node.PassingAll ctx children) :
    node.Passing ctx := by
  cases h with
  | fragment => exact hchildren
  | tag he => exact Node.passing_append he hchildren
  | cells cellTag columns he =>
    exact Node.passing_append he
      (Node.passing_gridCells cellTag columns (Node.passing_cellsOf hchildren) 0)

end Shows

/-! ## Expansion -/

namespace Node

variable {ctx : RenderContext}

mutual

/-- Replacing the outermost components of a tree by trees with the text of their children
keeps the text, when this is so for components up to the depth of the tree. -/
theorem textContent_mapComponents {f : Descriptor → Element Node → Node} {bound : Nat}
    (hf : ∀ d e, e.kind = .component d → (element e).Passing ctx →
      (element e).componentDepth ≤ bound → (f d e).textContent = textContents e.children) :
    ∀ {node : Node}, node.Passing ctx → node.componentDepth ≤ bound →
      (mapComponents f node).textContent = node.textContent
  | nothing, _, _ => rfl
  | text _ _, _, _ => rfl
  | fragment _ _, hpass, hdepth => by
    rw [mapComponents, textContent, textContent]
    rw [Passing] at hpass
    rw [componentDepth] at hdepth
    exact textContents_mapComponentsIn hf hpass hdepth
  | element e, hpass, hdepth => by
    rw [mapComponents, textContent_element]
    cases hkind : e.kind with
    | host tag =>
      simp only [textContent_element]
      simp only [componentDepth, hkind] at hdepth
      exact textContents_mapComponentsIn hf (passing_element_iff.1 hpass).2 hdepth
    | component d => exact hf d e hkind hpass hdepth

/-- If expanding each component up to some level keeps its text, so does expanding all components in
a list of nodes. -/
theorem textContents_mapComponentsIn {f : Descriptor → Element Node → Node} {bound : Nat}
    (hf : ∀ d e, e.kind = .component d → (element e).Passing ctx →
      (element e).componentDepth ≤ bound → (f d e).textContent = textContents e.children) :
    ∀ {children : List Node}, PassingAll ctx children → componentDepths children ≤ bound →
      textContents (mapComponentsIn f children) = textContents children
  | [], _, _ => rfl
  | c :: cs, hpass, hdepth => by
    rw [componentDepths, Nat.max_le] at hdepth
    rw [mapComponentsIn, textContents_cons, textContents_cons,
      textContent_mapComponents hf hpass.1 hdepth.1,
      textContents_mapComponentsIn hf hpass.2 hdepth.2]

end

/-- With as many levels as components are nested, expansion keeps the text. -/
theorem Passing.textContent_expandLevels {levels : Nat} :
    ∀ {node : Node}, node.Passing ctx → node.componentDepth ≤ levels →
      (expandLevels ctx levels node).textContent = node.textContent := by
  induction levels with
  | zero =>
    intro node _ _
    rfl
  | succ levels ih =>
    intro node hpass hdepth
    refine textContent_mapComponents ?_ hpass hdepth
    intro d e hkind hpasse hdepthe
    have hpassing := passing_element_iff.1 hpasse
    have hshows := Renderer.shows_render (hpassing.1 d hkind) e
    have hle : (d.renderer.render ctx e).componentDepth ≤ levels := by
      rw [hshows.componentDepth]
      simp only [componentDepth, hkind] at hdepthe
      omega
    calc (keyedAs e.key (expandLevels ctx levels (d.renderer.render ctx e))).textContent
        = (expandLevels ctx levels (d.renderer.render ctx e)).textContent :=
          textContent_keyedAs _ _
      _ = (d.renderer.render ctx e).textContent := ih (hshows.passing hpassing.2) hle
      _ = textContents e.children := hshows.textContent

/-- Expanding a tree of passing components keeps its text. -/
theorem Passing.textContent_expand {node : Node} (h : node.Passing ctx) :
    (node.expand ctx).textContent = node.textContent :=
  h.textContent_expandLevels (Nat.le_succ _)

end Node

end ViewSchema
