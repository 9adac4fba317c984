import ViewSchema.Proofs.Markup.Nesting

/-!
# What reading yields

The tags of a tree that has been read have names and attributes that the scanner takes for what
they are, and void tags stand in it without children.  Such a tree can be written and read again.

Main results:

- Theorem `Tag.TagText.readable`: what the grammar says about the names and values of a tag.
- Theorem `readableAll_parse`: every tree that is read consists of such tags.
-/

namespace ViewSchema

namespace Markup

/-- A token that can be written as it is. -/
def Token.Readable : Token → Prop
  | .text _ => True
  | .tag name attributes =>
    Tag.IsTagName name ∧ (∀ a ∈ attributes, Tag.IsAttribute a) ∧ Fields.Distinct attributes

mutual

/-- A tree of such tokens, in which nothing stands inside a void tag. -/
def Readable : Markup → Prop
  | text _ => True
  | tag name attributes children =>
    (Token.tag name attributes).Readable ∧ (name.toLower ∈ voidTags → children = []) ∧
      ReadableAll children

def ReadableAll : List Markup → Prop
  | [] => True
  | node :: nodes => Readable node ∧ ReadableAll nodes

end

/-- No void tag is open. -/
def NoVoid (opened : List String) : Prop := ∀ name ∈ opened, name.toLower ∉ voidTags

variable {opened : List String} {pieces : List Piece}

/-! ## Tags of the grammar -/

namespace Tag

variable {greedy : Bool} {written : List Char} {t : Tag}

theorem AttributeText.isAttribute {a : String × Json} {next : Option Char}
    (h : AttributeText greedy written a next) : IsAttribute a := by
  cases h with
  | name hblanks hne hname => exact ⟨hname, .inl rfl⟩
  | value hblanks hne hname hbefore hafter hvalue => exact ⟨hname, .inr ⟨_, rfl⟩⟩

theorem InsideText.isAttribute {attributes : List (String × Json)} {selfClosing : Bool}
    (h : InsideText greedy written attributes selfClosing) : ∀ a ∈ attributes, IsAttribute a := by
  induction h with
  | ending selfClosing hblanks => exact fun a ha => absurd ha List.not_mem_nil
  | cons hfirst hrest ih => exact List.forall_mem_cons.2 ⟨hfirst.isAttribute, ih⟩

/-- A tag of the grammar has a name, and attributes of different names. -/
theorem TagText.readable (h : TagText greedy written t) :
    (Token.tag t.name t.attributes).Readable := by
  obtain ⟨hname, hinside⟩ := h
  refine ⟨hname, ?_, Fields.distinct_ofList _⟩
  intro a ha
  obtain ⟨before, after, hsplit, -⟩ := Fields.mem_ofList_iff.1 ha
  apply hinside.isAttribute
  rw [hsplit]
  exact List.mem_append_right _ List.mem_cons_self

end Tag

/-- All tags of a source are tags of the grammar. -/
theorem Piece.Cut.readable {cs : List Char} (h : Piece.Cut cs pieces) :
    ∀ t, Piece.tag t ∈ pieces → (Token.tag t.name t.attributes).Readable := by
  have htext : ∀ (raw : List Char) (t : Tag), Piece.tag t ∉ Piece.ofText raw := by
    intro raw t ht
    unfold Piece.ofText at ht
    split at ht <;> simp at ht
  induction h with
  | ending hplain => exact fun t ht => absurd ht (htext _ t)
  | tag hplain htag hrest ih =>
    intro t ht
    rcases List.mem_append.1 ht with hin | hin
    · exact absurd hin (htext _ t)
    · rcases List.mem_cons.1 hin with heq | hmore
      · cases heq
        exact htag.readable
      · exact ih t hmore

/-! ## Trees -/

/-- No void tag is ever opened. -/
theorem NoVoid.openBehind (h : NoVoid opened) (piece : Piece) :
    NoVoid (openBehind opened piece) := by
  cases piece with
  | text raw => exact h
  | tag t =>
    rw [Markup.openBehind]
    split
    · exact fun name hname => h name ((closeName_suffix t.name opened).subset hname)
    split
    · exact h
    · rename_i hchildless
      have hvoid : t.name.toLower ∉ voidTags := fun hin => hchildless (.inr hin)
      exact List.forall_mem_cons.2 ⟨hvoid, h⟩

/-- Each token stands as it is written, and inside no void tag. -/
theorem readable_of_mem_placed
    (htags : ∀ t, Piece.tag t ∈ pieces → (Token.tag t.name t.attributes).Readable)
    (hopened : NoVoid opened) :
    ∀ entry ∈ placed opened pieces, entry.2.Readable ∧ NoVoid entry.1 := by
  induction pieces generalizing opened with
  | nil => exact fun entry hentry => absurd hentry List.not_mem_nil
  | cons piece pieces ih =>
    intro entry hentry
    rw [placed] at hentry
    rcases List.mem_append.1 hentry with hfirst | hrest
    · rw [Option.mem_toList] at hfirst
      obtain ⟨token, htoken, rfl⟩ := Option.map_eq_some_iff.1 hfirst
      refine ⟨?_, hopened⟩
      cases piece with
      | text raw =>
        cases htoken
        trivial
      | tag t =>
        rw [Piece.token?] at htoken
        split at htoken
        · cases htoken
        · cases htoken
          exact htags t List.mem_cons_self
    · have hmore : ∀ t, Piece.tag t ∈ pieces → (Token.tag t.name t.attributes).Readable :=
        fun t ht => htags t (List.mem_cons_of_mem _ ht)
      exact ih hmore (hopened.openBehind piece) entry hrest

mutual

/-- A tree can be read if each entry of its listing can stand where it does. -/
theorem readable_of_listing {above : List String} : ∀ {node : Markup},
    (∀ entry ∈ listing above node, entry.2.Readable ∧ NoVoid entry.1) → node.Readable
  | .text _, _ => trivial
  | .tag name attributes children, h => by
    rw [listing] at h
    obtain ⟨hfirst, hchildren⟩ := List.forall_mem_cons.1 h
    refine ⟨hfirst.1, ?_, readableAll_of_listing hchildren⟩
    intro hvoid
    -- Whatever is listed for a child stands inside the void tag.
    cases children with
    | nil => rfl
    | cons child rest =>
      obtain ⟨entry, hentry, habove⟩ :
          ∃ entry ∈ listing (name :: above) child, entry.1 = name :: above := by
        cases child with
        | text value => exact ⟨_, List.mem_cons_self, rfl⟩
        | tag inner attributes children => exact ⟨_, List.mem_cons_self, rfl⟩
      have hnone := (hchildren entry (List.mem_append_left _ hentry)).2
      rw [habove] at hnone
      exact absurd hvoid (hnone name List.mem_cons_self)

theorem readableAll_of_listing {above : List String} : ∀ {nodes : List Markup},
    (∀ entry ∈ listingAll above nodes, entry.2.Readable ∧ NoVoid entry.1) → ReadableAll nodes
  | [], _ => trivial
  | node :: nodes, h => by
    rw [listingAll] at h
    obtain ⟨hfirst, hrest⟩ := List.forall_mem_append.1 h
    exact ⟨readable_of_listing hfirst, readableAll_of_listing hrest⟩

end

/-- Every tree that is read can be written and read again. -/
theorem readableAll_parse (source : String) : ReadableAll (parse source) := by
  have hcut : Piece.Cut source.toList (Piece.scan source) := Piece.cut_iff.2 rfl
  have hnone : NoVoid [] := fun _ hname => absurd hname List.not_mem_nil
  have hlisting : ∀ entry ∈ listingAll [] (parse source),
      entry.2.Readable ∧ NoVoid entry.1 := by
    rw [parse, listing_ofPieces]
    exact readable_of_mem_placed hcut.readable hnone
  exact readableAll_of_listing hlisting

end Markup

end ViewSchema
