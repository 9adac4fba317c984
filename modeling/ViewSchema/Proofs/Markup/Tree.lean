import ViewSchema.Markup.Tree
import ViewSchema.Proofs.Markup.Cutting
import ViewSchema.Proofs.Markup.Tag

/-!
# Reading markup piece by piece

A reader of markup is in the middle of its source: it has built a part of the tree and holds
text that no tag has ended yet.  Reading on from there depends on nothing else, so what is
written can be read one text and one tag at a time.

Main results:

- Theorems `Progress.resume_text` and `Progress.resume_tag`: reading on over escaped text and
  over a tag.
- Theorem `Progress.settle_foldl`: texts that stand next to each other become one text.
- Theorem `Builder.read_closing`: a closing tag closes what was read since its opening tag.
- Theorem `parse_eq_join`: a source that is read from its front to its end.
-/

namespace ViewSchema

namespace Markup

/-- Characters that open no tag are held back. -/
theorem Piece.scanFrom_append {pending rest xs : List Char} (h : '<' ∉ xs) :
    scanFrom 0 pending (xs ++ rest) = scanFrom 0 (xs.reverse ++ pending) rest := by
  apply scanFrom_plain
  intro front back hsplit
  refine absurd ?_ h
  rw [hsplit]
  exact List.mem_append_right _ List.mem_cons_self

/-! ## Building -/

/-- Text that ends here, as a node unless it is empty. -/
def ofPending (text : String) : List Markup := if text.isEmpty then [] else [.text text]

/-- Texts that stand next to each other, `pending` first, are one text; empty ones vanish. -/
def joinFrom (pending : String) : List Markup → List Markup
  | [] => ofPending pending
  | text value :: rest => joinFrom (pending ++ value) rest
  | tag name attributes children :: rest =>
    ofPending pending ++ tag name attributes children :: joinFrom "" rest

/-- Markup with adjacent texts joined and without empty texts. -/
def join (nodes : List Markup) : List Markup := joinFrom "" nodes

namespace Builder

variable {b : Builder}

/-- Add finished nodes in order. -/
def addAll (b : Builder) (nodes : List Markup) : Builder := nodes.foldl add b

@[simp] theorem addAll_nil : b.addAll [] = b := rfl

@[simp] theorem addAll_cons (node : Markup) (nodes : List Markup) :
    b.addAll (node :: nodes) = (b.add node).addAll nodes := rfl

theorem addAll_append (nodes others : List Markup) :
    b.addAll (nodes ++ others) = (b.addAll nodes).addAll others := List.foldl_append

/-- Nodes that are added while a tag is open become its children. -/
theorem addAll_frame (frame : Frame) (outer : List Frame) (top nodes : List Markup) :
    addAll ⟨frame :: outer, top⟩ nodes =
      ⟨{ frame with children := frame.children ++ nodes } :: outer, top⟩ := by
  induction nodes generalizing frame with
  | nil => simp
  | cons node nodes ih =>
    rw [addAll_cons, add, ih]
    simp

/-- Nodes that are added while no tag is open stand at the top. -/
theorem addAll_top (top nodes : List Markup) : addAll ⟨[], top⟩ nodes = ⟨[], top ++ nodes⟩ := by
  induction nodes generalizing top with
  | nil => simp
  | cons node nodes ih =>
    rw [addAll_cons, add, ih]
    simp

/-- A tag that closes itself, or is void, is read as a node without children. -/
theorem read_void {t : Tag} (hopening : t.closing = false)
    (hvoid : (t.selfClosing || voidTags.contains t.name.toLower) = true) :
    b.read (.tag t) = b.add (.tag t.name t.attributes []) := by
  rw [read]
  simp only [hopening, hvoid, if_true, Bool.false_eq_true, if_false]

/-- Any other opening tag is opened. -/
theorem read_opening {t : Tag} (hopening : t.closing = false)
    (hvoid : (t.selfClosing || voidTags.contains t.name.toLower) = false) :
    b.read (.tag t) = b.openTag t.name t.attributes := by
  rw [read]
  simp only [hopening, hvoid, Bool.false_eq_true, if_false]

/-- A closing tag closes what was read since the opening tag of its name. -/
theorem read_closing (name : String) (attributes nodes : List _) :
    ((b.openTag name attributes).addAll nodes).read
        (.tag { closing := true, name, attributes := [], selfClosing := false }) =
      b.add (.tag name attributes nodes) := by
  have hopen : (b.openTag name attributes).addAll nodes =
      ⟨⟨name, attributes, nodes⟩ :: b.frames, b.top⟩ := addAll_frame _ _ _ nodes
  have hcount : ((b.openTag name attributes).addAll nodes).closedBy name = 1 := by
    rw [hopen]
    simp [closedBy, List.findIdx?_cons]
  rw [read]
  simp only [hcount, if_true]
  rw [hopen]
  rfl

/-- Nodes that are read while no tag is open are the tree. -/
theorem finish_addAll (nodes : List Markup) : (empty.addAll nodes).finish = nodes := by
  rw [empty, addAll_top]
  rfl

end Builder

/-! ## Reading on -/

/-- Where a reader is: what it has built, and the text that no tag has ended. -/
structure Progress where
  builder : Builder
  pending : String

namespace Progress

/-- A reader that has read nothing. -/
def start : Progress := ⟨.empty, ""⟩

/-- The tree when the text ends. -/
def settle (p : Progress) : Builder := p.builder.addAll (ofPending p.pending)

/-- The place behind one more node. -/
def past (p : Progress) : Markup → Progress
  | .text value => ⟨p.builder, p.pending ++ value⟩
  | .tag name attributes children => ⟨p.settle.add (.tag name attributes children), ""⟩

/-- Read the rest of a source, where pending text stands before it in escaped form. -/
def resume (p : Progress) (rest : List Char) : Builder :=
  (Piece.scanFrom 0 (p.pending.toList.flatMap Entity.escapeTextChar).reverse rest).foldl
    Builder.read p.builder

/-- Pending text is read as a piece of its own, unless it is empty. -/
theorem foldl_read_flush (p : Progress) :
    (Piece.flush (p.pending.toList.flatMap Entity.escapeTextChar).reverse).foldl
      Builder.read p.builder = p.settle := by
  have hdecode := Entity.decodeChars_escapeText p.pending.toList
  unfold Piece.flush settle ofPending
  by_cases hempty : p.pending.isEmpty
  · have hchars : p.pending.toList = [] := by simpa using hempty
    simp [hempty, hchars]
  · have hchars : p.pending.toList.flatMap Entity.escapeTextChar ≠ [] := by
      intro hnil
      rw [hnil] at hdecode
      have hchars : p.pending.toList = [] := hdecode.symm
      exact hempty (by simpa using hchars)
    rw [if_neg (by simpa using hchars), if_neg hempty]
    simp [Builder.read, hdecode]

/-- At the end of the source the text ends. -/
theorem resume_nil (p : Progress) : p.resume [] = p.settle := by
  rw [resume, Piece.scanFrom, foldl_read_flush]

/-- Escaped text joins the pending text. -/
theorem resume_text (p : Progress) (value : String) (rest : List Char) :
    p.resume (value.toList.flatMap Entity.escapeTextChar ++ rest) =
      (p.past (.text value)).resume rest := by
  rw [resume, Piece.scanFrom_append (Entity.bracket_not_mem_escapeText _), ← List.reverse_append,
    ← List.flatMap_append, ← String.toList_append]
  rfl

/-- A tag ends the pending text. -/
theorem resume_tag (p : Progress) {xs rest : List Char} {t : Tag}
    (h : Tag.read? (xs ++ rest) = some (t, rest)) :
    p.resume ('<' :: (xs ++ rest)) = resume ⟨p.settle.read (.tag t), ""⟩ rest := by
  rw [resume, Piece.scanFrom_tag h, List.foldl_append, foldl_read_flush]
  rfl

/-- Going past nodes adds them with their texts joined. -/
theorem settle_foldl (p : Progress) (nodes : List Markup) :
    (nodes.foldl past p).settle = p.builder.addAll (joinFrom p.pending nodes) := by
  induction nodes generalizing p with
  | nil => rfl
  | cons node rest ih =>
    rw [List.foldl_cons, ih]
    cases node with
    | text value => rfl
    | tag name attributes children =>
      rw [joinFrom, Builder.addAll_append]
      rfl

end Progress

/-- A source that is read as nodes from its front to its end is the markup of these nodes. -/
theorem parse_eq_join {source : String} {nodes : List Markup}
    (h : ∀ rest, Progress.start.resume (source.toList ++ rest) =
      (nodes.foldl Progress.past .start).resume rest) :
    parse source = join nodes := by
  have hread := h []
  rw [List.append_nil, Progress.resume_nil, Progress.settle_foldl] at hread
  have hpieces : (Piece.scan source).foldl Builder.read .empty =
      Builder.empty.addAll (join nodes) := hread
  rw [parse, ofPieces, hpieces, Builder.finish_addAll]

end Markup

end ViewSchema
