import ViewSchema.Proofs.Compile.Reading
import ViewSchema.Proofs.Node.Passing

/-!
# Text fidelity

The text of a compiled and expanded schema is the text of its leaves, in document order,
each formatted with the section that it stands in.  The proof goes by the budget of the
compiler; what it carries along is that a compiled tree shows what reading finds and is made
of components that pass their children through.

Main results:

- Definition `Mark.Plain`: components that pass their content, leaves without markup.
- Theorem `Compiler.shows_build`: a compiled value shows what reading it finds.
- Theorem `Compiler.textContent_expand_buildContent`: the text of the expanded result.
-/

namespace ViewSchema

/-- The text that a mark adds. -/
def Mark.text (c : Compiler) : Mark → String
  | .opened _ => ""
  | .leaf value scope => c.leafText value scope

/-- Sections whose component compiles its content and passes it through, and leaves whose text
has no markup. -/
def Mark.Plain (c : Compiler) (ctx : RenderContext) : Mark → Prop
  | .opened mutated =>
    (c.descriptorOf mutated).keepsRawContent = false ∧
      (c.descriptorOf mutated).renderer.passesChildren ctx = true
  | .leaf value scope => Markup.occursIn (c.leafText value scope) = false

/-- The texts of marks, in order. -/
def Mark.texts (c : Compiler) (marks : List Mark) : String := String.join (marks.map (Mark.text c))

@[simp] theorem Mark.texts_nil (c : Compiler) : Mark.texts c [] = "" := rfl

@[simp] theorem Mark.texts_cons (c : Compiler) (mark : Mark) (marks : List Mark) :
    Mark.texts c (mark :: marks) = mark.text c ++ Mark.texts c marks := by
  simp [Mark.texts]

@[simp] theorem Mark.texts_append (c : Compiler) (xs ys : List Mark) :
    Mark.texts c (xs ++ ys) = Mark.texts c xs ++ Mark.texts c ys := by
  induction xs with
  | nil => simp
  | cons x xs ih => simp [ih, String.append_assoc]

/-! ## Options of leaves -/

/-- The fields of a section that decide how its leaves look. -/
def Formatter.optionNames : List String := ["format", "decimals", "currency", "dateFormat"]

/-- Formatting reads four fields of a section and no others. -/
theorem Formatter.format_congr (f : Formatter) (value : Json) {xs ys : List (String × Json)}
    (h : ∀ name ∈ Formatter.optionNames, xs.lookup name = ys.lookup name) :
    f.format value (some xs) = f.format value (some ys) := by
  have hformat := h "format" (by decide)
  have hdecimals := h "decimals" (by decide)
  have hcurrency := h "currency" (by decide)
  have hdate := h "dateFormat" (by decide)
  simp only [Formatter.format, Option.bind_some, Formatter.formatted?, Fields.string?, hformat,
    hdecimals, hcurrency, hdate]

namespace Compiler

variable {c : Compiler} {ctx : RenderContext}

/-- Two scopes in which every leaf has the same text. -/
def SameTexts (c : Compiler) (s t : Scope) : Prop :=
  ∀ value, c.leafText value s = c.leafText value t

/-- Leaves of a section look alike with the section and with the fields it hands on. -/
theorem sameTexts_enter {mutated : List (String × Json)} (h : Fields.Distinct mutated)
    (s t : Scope) (name : String) :
    c.SameTexts (s.enter name (Section.handedOn mutated)) (t.enter name mutated) := by
  intro value
  simp only [leafText, Scope.enter, Scope.options?, List.head?_cons, Option.map_some]
  apply Formatter.format_congr
  intro option hoption
  have hkept : option ∉ Section.reservedFields := by
    revert option
    decide
  rw [Section.lookup_handedOn h, if_neg hkept]

/-! ## What a compiled place shows -/

/-- Compiled nodes show what reading places finds, if all of it is plain. -/
def ShowsReading (c : Compiler) (ctx : RenderContext) (places : List Place) (nodes : List Node) :
    Prop :=
  ∃ marks, c.Reads places marks ∧ ((∀ mark ∈ marks, mark.Plain c ctx) →
    Node.textContents nodes = Mark.texts c marks ∧ Node.PassingAll ctx nodes)

theorem ShowsReading.nil : c.ShowsReading ctx [] [] :=
  ⟨[], .done, fun _ => ⟨rfl, trivial⟩⟩

/-- Places one after the other show their readings one after the other. -/
theorem ShowsReading.append {xs ys : List Place} {ns ms : List Node}
    (h : c.ShowsReading ctx xs ns) (h' : c.ShowsReading ctx ys ms) :
    c.ShowsReading ctx (xs ++ ys) (ns ++ ms) := by
  obtain ⟨first, hfirst, hshown⟩ := h
  obtain ⟨second, hsecond, hshown'⟩ := h'
  refine ⟨first ++ second, hfirst.append hsecond, ?_⟩
  intro hplain
  have hx := hshown fun mark hmark => hplain mark (List.mem_append_left _ hmark)
  have hy := hshown' fun mark hmark => hplain mark (List.mem_append_right _ hmark)
  constructor
  · rw [Node.textContents_append, Mark.texts_append, hx.1, hy.1]
  · rw [Node.passingAll_iff] at hx hy ⊢
    intro node hnode
    rcases List.mem_append.1 hnode with hleft | hright
    · exact hx.2 node hleft
    · exact hy.2 node hright

/-- Items compiled one by one show the reading of their places. -/
theorem ShowsReading.ofForall₂ {α : Type} {place : α → Place} {xs : List α} {nodes : List Node}
    (h : List.Forall₂ (fun x node => c.ShowsReading ctx [place x] [node]) xs nodes) :
    c.ShowsReading ctx (xs.map place) nodes := by
  induction h with
  | nil => exact .nil
  | cons hfirst _ ih => exact hfirst.append ih

/-- A fragment shows what its children show. -/
theorem ShowsReading.ofList {places : List Place} {nodes : List Node}
    (h : c.ShowsReading ctx places nodes) : c.ShowsReading ctx places [.ofList nodes] := by
  obtain ⟨marks, hreads, hshown⟩ := h
  refine ⟨marks, hreads, ?_⟩
  intro hplain
  obtain ⟨htext, hpass⟩ := hshown hplain
  exact ⟨by simp [Node.textContent_ofList, htext], ⟨hpass, trivial⟩⟩

/-! ## Sections -/

/-- A wrapper is a plain tag around the wrapped element. -/
theorem wrapperElement_eq (c : Compiler) (tag name : String) (mutated : List (String × Json))
    (inner : Node) :
    ∃ e : Element Node, e.BareHost ∧
      c.wrapperElement tag name mutated inner = .element (e.append [inner]) :=
  ⟨_, (((Element.BareHost.ofHost tag).withKey _).withClasses _).withProp _ _, rfl⟩

/-- An assembled section has the text of its children, wrapped or not. -/
theorem textContent_assemble (c : Compiler) (d : Descriptor) (name : String)
    (mutated : List (String × Json)) (rendered : List (String × Node)) (children : List Node) :
    (c.assemble d name mutated rendered children).textContent = Node.textContents children := by
  unfold assemble
  dsimp only
  split
  · obtain ⟨e, he, heq⟩ := c.wrapperElement_eq _ name mutated _
    rw [heq, Node.textContent_append he, Node.textContents_cons, Node.textContent_element]
    simp
  · rw [Node.textContent_element]

/-- An assembled section passes when its component does and its children do. -/
theorem passing_assemble {d : Descriptor} (hd : d.renderer.passesChildren ctx = true)
    (name : String) (mutated : List (String × Json)) (rendered : List (String × Node))
    {children : List Node} (hchildren : Node.PassingAll ctx children) :
    (c.assemble d name mutated rendered children).Passing ctx := by
  unfold assemble
  dsimp only
  have helement : ∀ e : Element Node, e.kind = .component d → e.children = children →
      (Node.element e).Passing ctx := by
    intro e hkind hsame
    rw [Node.passing_element_iff, hsame]
    refine ⟨?_, hchildren⟩
    intro d' hd'
    cases hkind.symm.trans hd'
    exact hd
  split
  · obtain ⟨e, he, heq⟩ := c.wrapperElement_eq _ name mutated _
    rw [heq]
    exact Node.passing_append he ⟨helement _ rfl rfl, trivial⟩
  · exact helement _ rfl rfl

/-- Dropping nodes that are nothing keeps texts and components. -/
theorem ShowsReading.filter {places : List Place} {nodes : List Node}
    (h : c.ShowsReading ctx places nodes) :
    c.ShowsReading ctx places (nodes.filter fun node => !node.isNothing) := by
  obtain ⟨marks, hreads, hshown⟩ := h
  refine ⟨marks, hreads, ?_⟩
  intro hplain
  obtain ⟨htext, hpass⟩ := hshown hplain
  constructor
  · rw [← htext]
    clear htext hpass hshown
    induction nodes with
    | nil => rfl
    | cons node rest ih =>
      cases hnode : node.isNothing with
      | true => simp [hnode, ih, Node.textContent_of_isNothing hnode]
      | false => simp [hnode, ih]
  · rw [Node.passingAll_iff] at hpass ⊢
    intro node hnode
    exact hpass node (List.mem_filter.1 hnode).1

/-- What compiles the insides of a value shows what reading them finds, in any scope that
gives leaves the same texts. -/
def RecurShows (c : Compiler) (ctx : RenderContext) (recur : Json → Scope → Compilation Node) :
    Prop :=
  ∀ value scope outer node names, value.Regular → c.SameTexts scope outer →
    (recur value scope).run? = some (node, names) →
      c.ShowsReading ctx [.value value outer] [node]

variable {recur : Json → Scope → Compilation Node}

/-- A compiled section shows what reading it finds. -/
theorem RecurShows.compileSection (hrecur : c.RecurShows ctx recur) (hhook : c.HookIsRegular)
    (htarget : c.props.childrenIn = none) {fields : List (String × Json)}
    (hfields : (Json.object fields).Regular) {name : String} {scope : Scope} {node : Node}
    {names : List String}
    (h : (c.compileSection recur fields name scope).run? = some (node, names)) (outer : Scope) :
    c.ShowsReading ctx [.named name fields outer] [node] := by
  have hmutated := hhook.mutated hfields name
  rcases compileSection_cases h with ⟨hactive, rfl, -⟩ | ⟨hactive, parts, rfl, -⟩
  · exact ⟨[], .inactive hactive .done, fun _ => ⟨rfl, trivial, trivial⟩⟩
  rcases parts.children_cases htarget with
    ⟨hcontent, hempty⟩ | ⟨content, child, hcontent, hrun, hkept⟩
  · refine ⟨[.opened (c.mutated name fields)], .bare hactive hcontent .done, ?_⟩
    intro hplain
    have hopened := hplain _ List.mem_cons_self
    rw [hempty]
    refine ⟨?_, passing_assemble hopened.2 _ _ _ trivial, trivial⟩
    simp [textContent_assemble, Mark.text]
  · have hregular : content.Regular := by
      unfold compiledContent? at hcontent
      split at hcontent
      · cases hcontent
      · exact hmutated.lookup hcontent
    have hinside := hrecur content _ _ child _ hregular
      (sameTexts_enter hmutated.distinct scope outer name) hrun
    obtain ⟨marks, hreads, hshown⟩ := hinside.filter
    refine ⟨.opened (c.mutated name fields) :: marks, .content hactive hcontent hreads, ?_⟩
    intro hplain
    have hopened := hplain _ List.mem_cons_self
    obtain ⟨htext, hpass⟩ := hshown fun mark hmark => hplain mark (List.mem_cons_of_mem _ hmark)
    rw [hkept]
    refine ⟨?_, passing_assemble hopened.2 _ _ _ hpass, trivial⟩
    simp [textContent_assemble, htext, Mark.text]

/-! ## Values -/

/-- A leaf shows its text, unless it is markup. -/
theorem showsReading_leaf {value : Json} (hfalsy : value.isFalsy = false)
    (harray : value.isArray = false) (hobject : value.isObject = false) {scope outer : Scope}
    (hscope : c.SameTexts scope outer) :
    c.ShowsReading ctx [.value value outer] [c.leaf value scope] := by
  refine ⟨[.leaf value outer], .leaf hfalsy harray hobject .done, ?_⟩
  intro hplain
  have hleaf : Markup.occursIn (c.leafText value outer) = false := hplain _ List.mem_cons_self
  have htext : c.leaf value scope =
      .text (some (Node.textKey (c.leafText value outer))) (c.leafText value outer) := by
    simp [leaf, textNode, hscope value, hleaf]
  rw [htext]
  exact ⟨by simp [Node.textContent, Mark.text], trivial, trivial⟩

/-- A regular array is compiled item by item into a fragment. -/
theorem RecurShows.array (hrecur : c.RecurShows ctx recur) {items : List Json}
    (hitems : (Json.array items).Regular) {scope outer : Scope}
    (hscope : c.SameTexts scope outer) {node : Node} {names : List String}
    (h : (c.step recur (.array items) scope).run? = some (node, names)) :
    c.ShowsReading ctx [.value (.array items) outer] [node] := by
  rw [step_array] at h
  obtain ⟨nodes, _, _, hnodes, hdone, -⟩ := Compilation.run?_andThen_eq_some.1 h
  cases hdone
  have hshown : c.ShowsReading ctx (items.map (Place.value · outer)) nodes := by
    have heach := (List.forall₂_and_left _ _).2
      ⟨Json.regular_array_iff.1 hitems, Compilation.forall₂_of_forEach hnodes⟩
    refine .ofForall₂ (heach.imp ?_)
    rintro item node ⟨hregular, visited, hrun⟩
    exact hrecur item scope outer node visited hregular hscope hrun
  obtain ⟨marks, hreads, htext⟩ := hshown.ofList
  exact ⟨marks, .items (by simpa using hreads), htext⟩

/-- A regular object is compiled as a section, or entry by entry into a fragment. -/
theorem RecurShows.object (hrecur : c.RecurShows ctx recur) (hhook : c.HookIsRegular)
    (htarget : c.props.childrenIn = none) {fields : List (String × Json)}
    (hfields : (Json.object fields).Regular) {scope : Scope} (outer : Scope) {node : Node}
    {names : List String}
    (h : (c.step recur (.object fields) scope).run? = some (node, names)) :
    c.ShowsReading ctx [.value (.object fields) outer] [node] := by
  cases hname : Section.name? fields with
  | some name =>
    rw [step_named hname] at h
    obtain ⟨marks, hreads, hshown⟩ := hrecur.compileSection hhook htarget hfields h outer
    exact ⟨marks, .named hname hreads, hshown⟩
  | none =>
    rw [step_entries hname] at h
    obtain ⟨nodes, _, _, hnodes, hdone, -⟩ := Compilation.run?_andThen_eq_some.1 h
    cases hdone
    have hshown : c.ShowsReading ctx (fields.map (Place.ofEntry outer)) nodes := by
      have heach := (List.forall₂_and_left _ _).2
        ⟨(Json.regular_object_iff.1 hfields).2, Compilation.forall₂_of_forEach hnodes⟩
      refine .ofForall₂ (heach.imp ?_)
      rintro entry node ⟨hregular, visited, hrun⟩
      exact hrecur.compileSection hhook htarget (Section.regular_ofEntry hregular entry.1) hrun
        outer
    obtain ⟨marks, hreads, htext⟩ := hshown.ofList
    exact ⟨marks, .entries hname (by simpa using hreads), htext⟩

/-- One step of the compiler shows what reading finds when the steps inside do. -/
theorem RecurShows.step (hrecur : c.RecurShows ctx recur) (hhook : c.HookIsRegular)
    (htarget : c.props.childrenIn = none) : c.RecurShows ctx (c.step recur) := by
  intro value scope outer node names hvalue hscope h
  cases hfalsy : value.isFalsy with
  | true =>
    rw [step_falsy hfalsy] at h
    cases h
    exact ⟨[], .falsy hfalsy .done, fun _ => ⟨rfl, trivial, trivial⟩⟩
  | false =>
    cases value with
    | array items => exact hrecur.array hvalue hscope h
    | object fields => exact hrecur.object hhook htarget hvalue outer h
    | _ =>
      rw [step_leaf hfalsy rfl rfl] at h
      cases h
      exact showsReading_leaf hfalsy rfl rfl hscope

/-- Whatever its budget, the compiler shows what reading a schema finds. -/
theorem shows_build (hhook : c.HookIsRegular) (htarget : c.props.childrenIn = none)
    (budget : Nat) : c.RecurShows ctx (c.build budget) := by
  induction budget with
  | zero =>
    intro value scope outer node names _ _ h
    cases h
  | succ budget ih => exact ih.step hhook htarget

/-- When compiling a schema ends, the schema has exactly one reading, and if everything it
finds is plain, the expanded result has the texts of its leaves, in order, each formatted
with the mutated section around it. -/
theorem textContent_expand_buildContent (c : Compiler) (ctx : RenderContext)
    (hhook : c.HookIsRegular) (htarget : c.props.childrenIn = none) {schema : Json}
    (hschema : schema.Regular) {budget : Nat} {index : Option Nat} {node : Node}
    (h : (c.buildContent budget (.schema schema) index).value? = some node) :
    ∃ marks, c.Reads [.value schema .root] marks ∧
      (∀ other, c.Reads [.value schema .root] other → other = marks) ∧
      ((∀ mark ∈ marks, mark.Plain c ctx) →
        (node.expand ctx).textContent = Mark.texts c marks) := by
  obtain ⟨⟨_, names⟩, hrun, rfl⟩ := Option.map_eq_some_iff.1 h
  obtain ⟨marks, hreads, hshown⟩ :=
    shows_build hhook htarget budget schema .root .root _ names hschema (fun _ => rfl) hrun
  refine ⟨marks, hreads, fun other hother => hother.unique hreads, ?_⟩
  intro hplain
  obtain ⟨htext, hpass⟩ := hshown hplain
  rw [hpass.1.textContent_expand, ← htext]
  simp

/-- A compiler that translates a greeting, shows prices as money and hides one section. -/
def storefront : Compiler where
  registry := .standard
  props := { name := "root" }
  mutate name _ :=
    if name = "price" then some [("format", .string "currency")]
    else if name = "draft" then some [("active", .bool false)]
    else none
  translate text := if text = "hi" then some "Hello, " else none

/-- A grid of a greeting, a price inside nested lists, a map of two sections and a zero. -/
def storefrontPage : Json :=
  .object [("name", .string "page"), ("component", .string "GridContainer"),
    ("content", .array [.string "hi",
      .array [.array [.object [("name", .string "price"), ("content", .int 1234)]]],
      .object [("note", .string " left"), ("draft", .object [("content", .string "gone")])],
      .int 0])]

theorem textContent_expand_storefrontPage :
    storefront.HookIsRegular ∧ storefront.props.childrenIn = none ∧ storefrontPage.Regular ∧
      ∃ node, (storefront.buildContent 6 (.schema storefrontPage) none).value? = some node ∧
        (node.expand ⟨.standard, none⟩).textContent = "Hello, $1,234.00 left" := by
  have hhook : storefront.HookIsRegular := by
    intro name fields overrides _ hover
    simp only [storefront] at hover
    split at hover
    · cases hover
      simp [Json.Regular, Json.RegularFields, Fields.Distinct]
    · split at hover
      · cases hover
        simp [Json.Regular, Json.RegularFields, Fields.Distinct]
      · cases hover
  have hschema : storefrontPage.Regular := by
    simp [storefrontPage, Json.Regular, Json.RegularFields, Json.RegularItems, Fields.Distinct,
      Json.int]
  obtain ⟨node, hnode⟩ := Option.isSome_iff_exists.1 (show
    (storefront.buildContent 6 (.schema storefrontPage) none).value?.isSome = true by decide)
  obtain ⟨marks, -, hunique, htext⟩ :=
    textContent_expand_buildContent storefront ⟨.standard, none⟩ hhook rfl hschema hnode
  -- The only reading, place by place.
  have hreads := hunique _ <| .named rfl <| .content rfl rfl <| .items <|
    .leaf rfl rfl rfl <| .items <| .items <| .named rfl <| .content rfl rfl <|
    .leaf rfl rfl rfl <| .entries rfl <| .content rfl rfl <| .leaf rfl rfl rfl <|
    .inactive rfl <| .falsy rfl .done
  refine ⟨hhook, rfl, hschema, node, hnode, ?_⟩
  rw [htext, ← hreads]
  · decide +kernel
  · rw [← hreads]
    intro mark hmark
    simp only [List.mem_cons, List.not_mem_nil, or_false] at hmark
    rcases hmark with rfl | rfl | rfl | rfl | rfl | rfl
    · exact ⟨by decide, by decide⟩
    · show Markup.occursIn _ = false
      decide +kernel
    · exact ⟨by decide, by decide⟩
    · show Markup.occursIn _ = false
      decide +kernel
    · exact ⟨by decide, by decide⟩
    · show Markup.occursIn _ = false
      decide +kernel

end Compiler

end ViewSchema
