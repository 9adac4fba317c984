import Mathlib.Data.List.Forall2
import ViewSchema.Compile.Compiler
import ViewSchema.Proofs.Json.Regular

/-!
# Compiling one section

What compiling a section amounts to, said once: an inactive section gives nothing, and
an active one gives the element assembled from its compiled slots, labels and children.

Main results:

- Theorem `Compilation.forall₂_of_forEach`: a compiled list is compiled item by item.
- Theorem `Section.lookup_handedOn`: what a section hands on reads like the section.
- Theorem `Compiler.compileSection_cases`: everything that compiling a section can do.
- Theorem `Compiler.sectionChildren_cases`: the children of a section.
- Theorem `Compiler.CompiledParts.children_cases`: the same without supplied children.
-/

namespace ViewSchema

namespace Compilation

variable {α β : Type}

/-- Compiling a list compiles each of its items. -/
theorem forall₂_of_forEach {f : α → Compilation β} {xs : List α} {ys : List β}
    {names : List String} (h : (forEach f xs).run? = some (ys, names)) :
    List.Forall₂ (fun x y => ∃ visited, (f x).run? = some (y, visited)) xs ys := by
  induction xs generalizing ys names with
  | nil =>
    cases h
    exact .nil
  | cons x xs ih =>
    rw [forEach, run?_andThen_eq_some] at h
    obtain ⟨y, first, rest, hy, htail, -⟩ := h
    rw [run?_andThen_eq_some] at htail
    obtain ⟨zs, _, _, hzs, hdone, -⟩ := htail
    cases hdone
    exact .cons ⟨first, hy⟩ (ih hzs)

end Compilation

namespace Section

variable {fields : List (String × Json)}

/-- Removing several fields hides their names and no others. -/
theorem lookup_without (h : Fields.Distinct fields) (names : List String) (other : String) :
    (without fields names).lookup other =
      if other ∈ names then none else fields.lookup other :=
  Fields.lookup_foldl_swapRemove h names other

/-- What a section hands on reads like the section, but for the reserved fields. -/
theorem lookup_handedOn (h : Fields.Distinct fields) (other : String) :
    (handedOn fields).lookup other =
      if other ∈ reservedFields then none else fields.lookup other :=
  lookup_without h reservedFields other

/-- Removing several fields keeps names distinct. -/
theorem distinct_without (h : Fields.Distinct fields) (names : List String) :
    Fields.Distinct (without fields names) :=
  h.foldl_swapRemove names

theorem distinct_handedOn (h : Fields.Distinct fields) : Fields.Distinct (handedOn fields) :=
  distinct_without h reservedFields

/-- The section of an entry in a map of sections is regular when the entry is. -/
theorem regular_ofEntry {entry : Json} (h : entry.Regular) (key : String) :
    (Json.object (ofEntry key entry)).Regular := by
  have hname : (Json.object [("name", .string key)]).Regular := by
    rw [Json.regular_object_iff]
    refine ⟨by simp [Fields.Distinct], ?_⟩
    intro field hfield
    rw [List.mem_singleton.1 hfield]
    trivial
  have hcontent : (Json.object [("name", .string key), ("content", entry)]).Regular :=
    hname.set h "content"
  cases entry with
  | object fields => exact hname.setAll (Json.regular_object_iff.1 h).2
  | _ => exact hcontent

end Section

namespace Compiler

variable {c : Compiler} {recur : Json → Scope → Compilation Node} {fields : List (String × Json)}
  {name : String} {scope : Scope} {node : Node} {names : List String}

/-! ## One step -/

theorem step_falsy {value : Json} (h : value.isFalsy = true) :
    c.step recur value scope = .done .nothing := by
  unfold step
  rw [if_pos h]

theorem step_leaf {value : Json} (h : value.isFalsy = false) (harray : value.isArray = false)
    (hobject : value.isObject = false) : c.step recur value scope = .done (c.leaf value scope) := by
  unfold step
  rw [if_neg (by simp [h])]
  cases value with
  | array => simp [Json.isArray] at harray
  | object => simp [Json.isObject] at hobject
  | _ => rfl

/-- An array is compiled item by item. -/
theorem step_array (items : List Json) :
    c.step recur (.array items) scope =
      (Compilation.forEach (fun item => recur item scope) items).andThen
        fun nodes => .done (.ofList nodes) := rfl

/-- An object with a name is compiled as a section. -/
theorem step_named (h : Section.name? fields = some name) :
    c.step recur (.object fields) scope = c.compileSection recur fields name scope := by
  simp [step, Json.isFalsy, h]

/-- An object without a name is compiled entry by entry. -/
theorem step_entries (h : Section.name? fields = none) :
    c.step recur (.object fields) scope =
      (Compilation.forEach (fun entry => c.compileSection recur (Section.ofEntry entry.1 entry.2)
        ((Section.name? (Section.ofEntry entry.1 entry.2)).getD entry.1) scope) fields).andThen
          fun nodes => .done (.ofList nodes) := by
  simp [step, Json.isFalsy, h]

/-! ## Sections -/

/-- A section under its mutation. -/
def mutated (c : Compiler) (name : String) (fields : List (String × Json)) :
    List (String × Json) :=
  applyMutation? fields (c.mutate name fields)

/-- The component of a mutated section. -/
def descriptorOf (c : Compiler) (mutated : List (String × Json)) : Descriptor :=
  (c.registry.resolveOrDefault (Fields.string? mutated "component")).descriptor

/-- Compile a section that is mutated already. -/
def compileMutated (c : Compiler) (recur : Json → Scope → Compilation Node)
    (m : List (String × Json)) (name : String) (scope : Scope) : Compilation Node :=
  if Section.isInactive m then .done .nothing
  else
    let inner := scope.enter name (Section.handedOn m)
    (buildNamed recur inner
        (Section.present (Section.handedOn m) (c.descriptorOf m).slots)).andThen fun slots =>
      (buildNamed recur inner (Section.present m Section.renderedFields)).andThen fun labels =>
        (if (c.descriptorOf m).keepsRawContent then .done []
          else c.sectionChildren recur m inner).andThen fun children =>
            .done (c.assemble (c.descriptorOf m) name m (slots ++ labels) children)

/-- A section is visited, mutated and then compiled. -/
theorem compileSection_eq (c : Compiler) (recur : Json → Scope → Compilation Node)
    (own : List (String × Json)) (name : String) (scope : Scope) :
    c.compileSection recur own name scope =
      (Compilation.visit name).andThen fun _ =>
        c.compileMutated recur (c.mutated name own) name scope := by
  simp only [compileSection, Compilation.bind_eq_andThen, Compilation.pure_eq_done]
  refine congrArg (Compilation.andThen _) (funext fun _ => ?_)
  refine congrArg (ite _ _) (congrArg _ (funext fun slots => congrArg _ (funext fun labels => ?_)))
  -- What follows the children is written into both branches of the choice about raw content.
  exact (apply_ite (fun compiled : Compilation (List Node) => compiled.andThen _) _ _ _).symm

/-- The content of a mutated section, unless its component takes it as it is. -/
def compiledContent? (c : Compiler) (mutated : List (String × Json)) : Option Json :=
  if (c.descriptorOf mutated).keepsRawContent then none else mutated.lookup "content"

/-- The overrides that a hook may answer with: objects without repeated names. -/
def HookIsRegular (c : Compiler) : Prop :=
  ∀ name fields overrides, (Json.object fields).Regular →
    c.mutate name fields = some overrides → (Json.object overrides).Regular

/-- Mutated sections are regular. -/
theorem HookIsRegular.mutated (h : c.HookIsRegular) (hfields : (Json.object fields).Regular)
    (name : String) : (Json.object (c.mutated name fields)).Regular :=
  hfields.applyMutation? fun overrides hover => h name fields overrides hfields hover

/-- The parts of an active section, compiled, with the sections visited in each of them. -/
structure CompiledParts (c : Compiler) (recur : Json → Scope → Compilation Node)
    (mutated : List (String × Json)) (inner : Scope) where
  slots : List (String × Node)
  labels : List (String × Node)
  children : List Node
  slotNames : List String
  labelNames : List String
  childNames : List String
  slots_eq : (buildNamed recur inner (Section.present (Section.handedOn mutated)
    (c.descriptorOf mutated).slots)).run? = some (slots, slotNames)
  labels_eq : (buildNamed recur inner
    (Section.present mutated Section.renderedFields)).run? = some (labels, labelNames)
  children_eq : (if (c.descriptorOf mutated).keepsRawContent then .done []
    else c.sectionChildren recur mutated inner).run? = some (children, childNames)

/-- Compiling a section either finds it inactive, or compiles its parts and assembles
them. -/
theorem compileSection_cases
    (h : (c.compileSection recur fields name scope).run? = some (node, names)) :
    (Section.isInactive (c.mutated name fields) = true ∧ node = .nothing ∧ names = [name]) ∨
    (Section.isInactive (c.mutated name fields) = false ∧
      ∃ parts : CompiledParts c recur (c.mutated name fields)
          (scope.enter name (Section.handedOn (c.mutated name fields))),
        node = c.assemble (c.descriptorOf (c.mutated name fields)) name (c.mutated name fields)
          (parts.slots ++ parts.labels) parts.children ∧
        names = name :: (parts.slotNames ++ parts.labelNames ++ parts.childNames)) := by
  rw [compileSection_eq, Compilation.run?_andThen_eq_some] at h
  obtain ⟨_, _, after, hvisit, hrest, rfl⟩ := h
  cases hvisit
  unfold compileMutated at hrest
  cases hactive : Section.isInactive (c.mutated name fields) with
  | true =>
    left
    rw [if_pos hactive] at hrest
    cases hrest
    exact ⟨rfl, rfl, rfl⟩
  | false =>
    right
    rw [if_neg (by simp [hactive])] at hrest
    obtain ⟨slots, slotNames, _, hslots, hafter, rfl⟩ := Compilation.run?_andThen_eq_some.1 hrest
    obtain ⟨labels, labelNames, _, hlabels, hlast, rfl⟩ :=
      Compilation.run?_andThen_eq_some.1 hafter
    obtain ⟨children, childNames, _, hchildren, hdone, rfl⟩ :=
      Compilation.run?_andThen_eq_some.1 hlast
    cases hdone
    refine ⟨rfl, ⟨slots, labels, children, slotNames, labelNames, childNames, hslots, hlabels,
      hchildren⟩, rfl, ?_⟩
    simp

/-- The nodes that the compiler adds to a section. -/
def suppliedTo (c : Compiler) (mutated : List (String × Json)) : List Node :=
  if c.receivesChildren mutated then c.props.children else []

/-- The children of a section are its compiled content, if it has one, and what is added to
it, without the nodes that are nothing. -/
theorem sectionChildren_cases {mutated : List (String × Json)} {children : List Node}
    (h : (c.sectionChildren recur mutated scope).run? = some (children, names)) :
    (mutated.lookup "content" = none ∧ names = [] ∧
      children = (c.suppliedTo mutated).filter fun node => !node.isNothing) ∨
    ∃ content node, mutated.lookup "content" = some content ∧
      (recur content scope).run? = some (node, names) ∧
      children = (node :: c.suppliedTo mutated).filter fun node => !node.isNothing := by
  cases hcontent : mutated.lookup "content" with
  | none =>
    simp only [sectionChildren, hcontent, Compilation.bind_eq_andThen,
      Compilation.pure_eq_done, Compilation.run?_andThen_eq_some] at h
    obtain ⟨_, _, _, hown, hdone, rfl⟩ := h
    cases hown
    cases hdone
    exact .inl ⟨rfl, rfl, rfl⟩
  | some content =>
    simp only [sectionChildren, hcontent, Compilation.bind_eq_andThen,
      Compilation.pure_eq_done, Compilation.run?_andThen_eq_some] at h
    obtain ⟨node, visited, _, hnode, ⟨_, _, last, hlist, hdone, rfl⟩, rfl⟩ := h
    cases hlist
    cases hdone
    exact .inr ⟨content, node, rfl, by simpa using hnode, rfl⟩

/-- Without a target for supplied children, a section has its compiled content or
nothing. -/
theorem CompiledParts.children_cases {mutated : List (String × Json)} {inner : Scope}
    (parts : CompiledParts c recur mutated inner) (htarget : c.props.childrenIn = none) :
    (c.compiledContent? mutated = none ∧ parts.children = []) ∨
    ∃ content node, c.compiledContent? mutated = some content ∧
      (recur content inner).run? = some (node, parts.childNames) ∧
      parts.children = [node].filter fun node => !node.isNothing := by
  have hchildren := parts.children_eq
  cases hraw : (c.descriptorOf mutated).keepsRawContent with
  | true =>
    rw [if_pos hraw] at hchildren
    have hempty : parts.children = [] := (congrArg Prod.fst (Option.some.inj hchildren)).symm
    exact .inl ⟨by simp [compiledContent?, hraw], hempty⟩
  | false =>
    rw [if_neg (by simp [hraw])] at hchildren
    have hcontent : c.compiledContent? mutated = mutated.lookup "content" := by
      simp [compiledContent?, hraw]
    have hsupplied : c.suppliedTo mutated = [] := by
      simp [suppliedTo, receivesChildren, htarget]
    rw [hcontent]
    rcases sectionChildren_cases hchildren with
      ⟨hnone, -, hkept⟩ | ⟨content, node, hsome, hrun, hkept⟩
    · exact .inl ⟨hnone, by simpa [hsupplied] using hkept⟩
    · exact .inr ⟨content, node, hsome, hrun, by rw [hkept, hsupplied]⟩

end Compiler

end ViewSchema
