import ViewSchema.Proofs.Node.Alike
import ViewSchema.Proofs.Node.HtmlFidelity

/-!
# Expansion ends, and is done once

Expanding a component goes on with what its renderer makes of it, which is no part of the
component.  Renderers lower the depth of components, so that going on comes to an end; what is
left has no components, and expanding it again changes nothing.

Main results:

- Definition `Node.Expansion`: a run of the renderers that comes to its end.
- Theorem `Node.expandLevels_of_le`: levels beyond the depth of a tree do not matter.
- Theorem `Node.expansion_map_expand`: every list of trees has a run, which expands each of them.
- Theorem `Node.expansion_iff_eq_expand`: runs end with the expanded tree, which has no components
  and stays as it is from then on.
-/

namespace ViewSchema

namespace Node

variable {ctx : RenderContext}

/-- `Expansion ctx xs ys`: running the renderers on the trees of a list comes to an end, with the
trees of another list.  A component is rendered first and what comes out is expanded then. -/
inductive Expansion (ctx : RenderContext) : List Node → List Node → Prop
  | nil : Expansion ctx [] []
  | nothing {xs ys : List Node} : Expansion ctx xs ys →
      Expansion ctx (.nothing :: xs) (.nothing :: ys)
  | text {key : Option String} {value : String} {xs ys : List Node} : Expansion ctx xs ys →
      Expansion ctx (.text key value :: xs) (.text key value :: ys)
  | fragment {key : Option String} {children expanded xs ys : List Node} :
      Expansion ctx children expanded → Expansion ctx xs ys →
      Expansion ctx (.fragment key children :: xs) (.fragment key expanded :: ys)
  | host {e : Element Node} {tag : String} {expanded xs ys : List Node} : e.kind = .host tag →
      Expansion ctx e.children expanded → Expansion ctx xs ys →
      Expansion ctx (.element e :: xs) (.element { e with children := expanded } :: ys)
  | component {e : Element Node} {d : Descriptor} {expanded : Node} {xs ys : List Node} :
      e.kind = .component d → Expansion ctx [d.renderer.render ctx e] [expanded] →
      Expansion ctx xs ys → Expansion ctx (.element e :: xs) (keyedAs e.key expanded :: ys)

/-! ## Replacing components -/

mutual

/-- Where no components are nested there are none. -/
theorem expanded_of_componentDepth_eq_zero : ∀ {node : Node}, node.componentDepth = 0 →
    node.Expanded
  | .nothing, _ | .text _ _, _ => trivial
  | .fragment _ _, h => expandedAll_of_componentDepths_eq_zero h
  | .element e, h => by
    rw [Expanded]
    rw [componentDepth] at h
    cases hkind : e.kind with
    | host tag =>
      rw [hkind] at h
      exact ⟨⟨tag, rfl⟩, expandedAll_of_componentDepths_eq_zero h⟩
    | component d =>
      simp only [hkind] at h
      omega

/-- Nodes without components are expanded. -/
theorem expandedAll_of_componentDepths_eq_zero : ∀ {children : List Node},
    componentDepths children = 0 → ExpandedAll children
  | [], _ => trivial
  | c :: cs, h => by
    rw [componentDepths] at h
    exact ⟨expanded_of_componentDepth_eq_zero (by omega),
      expandedAll_of_componentDepths_eq_zero (by omega)⟩

end

mutual

/-- Components are replaced alike by functions that agree up to the depth of the tree. -/
theorem mapComponents_congr {f g : Descriptor → Element Node → Node} {bound : Nat}
    (hfg : ∀ d e, e.kind = .component d → (element e).componentDepth ≤ bound → f d e = g d e) :
    ∀ {node : Node}, node.componentDepth ≤ bound → mapComponents f node = mapComponents g node
  | .nothing, _ | .text _ _, _ => rfl
  | .fragment key _, h => congrArg (Node.fragment key) (mapComponentsIn_congr hfg h)
  | .element e, h => by
    rw [mapComponents, mapComponents]
    cases hkind : e.kind with
    | host tag =>
      rw [componentDepth, hkind] at h
      simp only [mapComponentsIn_congr hfg h]
    | component d => exact hfg d e hkind h

/-- Two ways to expand components that do the same up to some level do the same to nodes up to that
level. -/
theorem mapComponentsIn_congr {f g : Descriptor → Element Node → Node} {bound : Nat}
    (hfg : ∀ d e, e.kind = .component d → (element e).componentDepth ≤ bound → f d e = g d e) :
    ∀ {children : List Node}, componentDepths children ≤ bound →
      mapComponentsIn f children = mapComponentsIn g children
  | [], _ => rfl
  | c :: cs, h => by
    rw [componentDepths, Nat.max_le] at h
    rw [mapComponentsIn, mapComponentsIn, mapComponents_congr hfg h.1,
      mapComponentsIn_congr hfg h.2]

end

mutual

/-- Replacing the components of a tree by trees without components leaves none. -/
theorem expanded_mapComponents {f : Descriptor → Element Node → Node} {bound : Nat}
    (hf : ∀ d e, e.kind = .component d → (element e).componentDepth ≤ bound → (f d e).Expanded) :
    ∀ {node : Node}, node.componentDepth ≤ bound → (mapComponents f node).Expanded
  | .nothing, _ | .text _ _, _ => trivial
  | .fragment _ _, h => expandedAll_mapComponentsIn hf h
  | .element e, h => by
    rw [mapComponents]
    cases hkind : e.kind with
    | host tag =>
      rw [componentDepth, hkind] at h
      exact ⟨⟨tag, rfl⟩, expandedAll_mapComponentsIn hf h⟩
    | component d => exact hf d e hkind h

/-- If expanding each component up to some level leaves none, nodes up to that level are
expanded. -/
theorem expandedAll_mapComponentsIn {f : Descriptor → Element Node → Node} {bound : Nat}
    (hf : ∀ d e, e.kind = .component d → (element e).componentDepth ≤ bound → (f d e).Expanded) :
    ∀ {children : List Node}, componentDepths children ≤ bound →
      ExpandedAll (mapComponentsIn f children)
  | [], _ => trivial
  | c :: cs, h => by
    rw [componentDepths, Nat.max_le] at h
    exact ⟨expanded_mapComponents hf h.1, expandedAll_mapComponentsIn hf h.2⟩

end

/-- A key makes no component. -/
theorem Expanded.keyedAs {node : Node} (h : node.Expanded) (key : Option String) :
    (keyedAs key node).Expanded := by
  cases key with
  | none => exact h
  | some key =>
    cases node with
    | nothing => exact h
    | text own value => cases own <;> exact h
    | fragment own children => cases own <;> exact h
    | element e =>
      rw [Node.keyedAs, keyIfMissing]
      split <;> exact h

/-! ## Levels -/

/-- What a component renders to is within the levels below those of the component. -/
theorem componentDepth_render_le_of_succ {levels : Nat} {d : Descriptor} {e : Element Node}
    (hkind : e.kind = .component d) (h : (element e).componentDepth ≤ levels + 1) :
    (d.renderer.render ctx e).componentDepth ≤ levels := by
  have hlt := d.renderer.componentDepth_render_lt ctx hkind
  omega

/-- One level more than components are nested changes nothing. -/
theorem expandLevels_succ {levels : Nat} : ∀ {node : Node}, node.componentDepth ≤ levels →
    expandLevels ctx (levels + 1) node = expandLevels ctx levels node := by
  induction levels with
  | zero =>
    intro node h
    exact mapComponents_of_expanded (expanded_of_componentDepth_eq_zero (Nat.le_zero.1 h))
  | succ levels ih =>
    intro node h
    refine mapComponents_congr ?_ h
    intro d e hkind hdepth
    rw [ih (componentDepth_render_le_of_succ hkind hdepth)]

/-- As many levels as components are nested expand a tree. -/
theorem expandLevels_of_le {levels : Nat} {node : Node} (h : node.componentDepth ≤ levels) :
    expandLevels ctx levels node = node.expand ctx := by
  obtain ⟨extra, rfl⟩ := Nat.exists_eq_add_of_le h
  clear h
  induction extra with
  | zero => exact (expandLevels_succ (Nat.le_refl _)).symm
  | succ extra ih =>
    rw [← Nat.add_assoc, expandLevels_succ (Nat.le_add_right _ _)]
    exact ih

/-- As many levels as components are nested leave no components. -/
theorem expanded_expandLevels {levels : Nat} : ∀ {node : Node}, node.componentDepth ≤ levels →
    (expandLevels ctx levels node).Expanded := by
  induction levels with
  | zero =>
    intro node h
    exact expanded_of_componentDepth_eq_zero (Nat.le_zero.1 h)
  | succ levels ih =>
    intro node h
    refine expanded_mapComponents ?_ h
    intro d e hkind hdepth
    exact (ih (componentDepth_render_le_of_succ hkind hdepth)).keyedAs e.key

/-- Expanding leaves no components. -/
theorem expanded_expand (ctx : RenderContext) (node : Node) : (node.expand ctx).Expanded :=
  expanded_expandLevels (Nat.le_succ _)

/-! ## The expansion of each kind of tree -/

/-- Nothing expands to nothing. -/
@[simp] theorem expand_nothing : Node.nothing.expand ctx = .nothing := rfl

/-- A text expands to itself. -/
@[simp] theorem expand_text (key : Option String) (value : String) :
    (Node.text key value).expand ctx = .text key value := rfl

/-- Trees of a list are expanded one by one, with the levels of all of them. -/
theorem mapComponentsIn_eq_map_expand {levels : Nat} {children : List Node}
    (h : componentDepths children ≤ levels) :
    mapComponentsIn (fun d e => keyedAs e.key (expandLevels ctx levels (d.renderer.render ctx e)))
      children = children.map (expand ctx) := by
  induction children with
  | nil => rfl
  | cons c cs ih =>
    rw [componentDepths, Nat.max_le] at h
    rw [mapComponentsIn, ih h.2, List.map_cons, ← expandLevels_of_le (Nat.le_succ_of_le h.1)]
    rfl

/-- A fragment is expanded child by child. -/
@[simp] theorem expand_fragment (key : Option String) (children : List Node) :
    (Node.fragment key children).expand ctx = .fragment key (children.map (expand ctx)) :=
  congrArg (Node.fragment key) (mapComponentsIn_eq_map_expand (Nat.le_refl _))

/-- A host is expanded child by child. -/
theorem expand_host {e : Element Node} {tag : String} (h : e.kind = .host tag) :
    (Node.element e).expand ctx =
      .element { e with children := e.children.map (expand ctx) } := by
  have hdepth : componentDepths e.children ≤ (element e).componentDepth :=
    Nat.le_of_eq (by simp [componentDepth, h])
  rw [expand, expandLevels, mapComponents, h]
  simp only [mapComponentsIn_eq_map_expand hdepth]

/-- The expansion of a component is that of what it renders to. -/
theorem expand_component {e : Element Node} {d : Descriptor} (h : e.kind = .component d) :
    (Node.element e).expand ctx = keyedAs e.key ((d.renderer.render ctx e).expand ctx) := by
  have hlt := d.renderer.componentDepth_render_lt ctx h
  rw [expand, expandLevels, mapComponents, h]
  simp only [expandLevels_of_le (Nat.le_of_lt hlt)]

/-! ## Runs -/

/-- A run ends with the expanded trees. -/
theorem Expansion.eq_map_expand {xs ys : List Node} (h : Expansion ctx xs ys) :
    ys = xs.map (expand ctx) := by
  induction h with
  | nil => rfl
  | nothing _ ih => rw [ih, List.map_cons, expand_nothing]
  | text _ ih => rw [ih, List.map_cons, expand_text]
  | fragment _ _ ih ih' => rw [ih, ih', List.map_cons, expand_fragment]
  | host hkind _ _ ih ih' => rw [ih, ih', List.map_cons, expand_host hkind]
  | component hkind _ _ ih ih' =>
    rw [List.map_singleton] at ih
    rw [List.singleton_inj.1 ih, ih', List.map_cons, expand_component hkind]

mutual

/-- A tree has a run when the components in it have one after they are rendered. -/
theorem Expansion.cons_expand {bound : Nat}
    (hrender : ∀ d e, e.kind = .component d → (element e).componentDepth ≤ bound →
      Expansion ctx [d.renderer.render ctx e] [(d.renderer.render ctx e).expand ctx])
    {xs ys : List Node} (h : Expansion ctx xs ys) :
    ∀ {node : Node}, node.componentDepth ≤ bound →
      Expansion ctx (node :: xs) (node.expand ctx :: ys)
  | .nothing, _ => .nothing h
  | .text _ _, _ => .text h
  | .fragment key children, hdepth => by
    rw [expand_fragment]
    exact .fragment (Expansion.map_expand_of_le hrender hdepth) h
  | .element e, hdepth => by
    cases hkind : e.kind with
    | host tag =>
      rw [componentDepth, hkind] at hdepth
      rw [expand_host hkind]
      exact .host hkind (Expansion.map_expand_of_le hrender hdepth) h
    | component d =>
      rw [expand_component hkind]
      exact .component hkind (hrender d e hkind hdepth) h

/-- If each component up to some level expands by the rules to what it expands to, so do nodes up to
that level. -/
theorem Expansion.map_expand_of_le {bound : Nat}
    (hrender : ∀ d e, e.kind = .component d → (element e).componentDepth ≤ bound →
      Expansion ctx [d.renderer.render ctx e] [(d.renderer.render ctx e).expand ctx]) :
    ∀ {children : List Node}, componentDepths children ≤ bound →
      Expansion ctx children (children.map (expand ctx))
  | [], _ => .nil
  | c :: cs, hdepth => by
    rw [componentDepths, Nat.max_le] at hdepth
    exact Expansion.cons_expand hrender (Expansion.map_expand_of_le hrender hdepth.2) hdepth.1

end

/-- Every list of trees has a run: the induction is on the depth of its components, which
rendering lowers. -/
theorem expansion_map_expand (ctx : RenderContext) (xs : List Node) :
    Expansion ctx xs (xs.map (expand ctx)) := by
  induction hbound : componentDepths xs using Nat.strongRecOn generalizing xs with
  | ind bound ih =>
    refine Expansion.map_expand_of_le ?_ (Nat.le_of_eq hbound)
    intro d e hkind hdepth
    have hlt := d.renderer.componentDepth_render_lt ctx hkind
    refine ih _ ?_ [d.renderer.render ctx e] rfl
    rw [componentDepths, componentDepths, Nat.max_zero]
    omega

/-- Whatever components a tree is built from, running their renderers comes to an end, and ends
with the expanded tree.  No components are left in it, so that it stays as it is when it is
expanded again, and its HTML is that of the tree. -/
theorem expansion_iff_eq_expand (ctx : RenderContext) (node : Node) :
    (∀ expanded, Expansion ctx [node] [expanded] ↔ expanded = node.expand ctx) ∧
      (node.expand ctx).Expanded ∧
      (∀ other, (node.expand ctx).expand other = node.expand ctx) ∧
      Html.render ctx (node.expand ctx) = Html.render ctx node ∧
      Html.renderPretty ctx (node.expand ctx) = Html.renderPretty ctx node := by
  have hexpanded := expanded_expand ctx node
  have hagain : ∀ other, (node.expand ctx).expand other = node.expand ctx := fun other =>
    expand_of_expanded hexpanded
  refine ⟨?_, hexpanded, hagain, ?_, ?_⟩
  · intro expanded
    constructor
    · intro h
      exact List.singleton_inj.1 h.eq_map_expand
    · rintro rfl
      exact expansion_map_expand ctx [node]
  · rw [Html.render, Html.render, hagain]
  · rw [Html.renderPretty, Html.renderPretty, hagain]

end Node

end ViewSchema
