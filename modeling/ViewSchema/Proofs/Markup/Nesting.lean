import ViewSchema.Proofs.Json.Equality
import ViewSchema.Proofs.Markup.Tree

/-!
# The tree of a source

A tree of markup is listed from its front to its back, each text and tag with the names of the
tags that it stands inside.  The listing of what a source is read as can be told from the pieces of
the source alone: every text and every tag that is not a closing one, in order, inside the tags
that are open where it stands.  No other tree has this listing.

A closing tag closes the innermost open tag of its name, in any case, and all tags inside of it.
The builder holds the open tags in frames; what it lists and what is open is the invariant that
reading piece after piece keeps.

Main results:

- Theorem `Builder.read_piece`: what one more piece adds to the listing, and what is open behind it.
- Theorem `listing_ofPieces`: the listing of the tree of a sequence of pieces.
- Theorem `listingAll_injective`: a tree is determined by its listing.
- Theorem `faithful_parse`: nothing of a source is lost, nothing is added and nothing is moved.
-/

namespace ViewSchema

namespace Markup

/-! ## Listings -/

/-- A text, or a tag without what stands in it. -/
inductive Token where
  | text (value : String)
  | tag (name : String) (attributes : List (String × Json))
deriving DecidableEq

mutual

/-- A tree from its front to its back, each token with the names of the tags that it stands inside,
innermost first. -/
def listing (above : List String) : Markup → List (List String × Token)
  | text value => [(above, .text value)]
  | tag name attributes children =>
    (above, .tag name attributes) :: listingAll (name :: above) children

def listingAll (above : List String) : List Markup → List (List String × Token)
  | [] => []
  | node :: nodes => listing above node ++ listingAll above nodes

end

/-- The token of a piece, each entity of a text replaced once. A closing tag has none. -/
def Piece.token? : Piece → Option Token
  | text raw => some (.text (Entity.decodeOnce (String.ofList raw)))
  | tag t => if t.closing then none else some (.tag t.name t.attributes)

/-- A tag that nothing can stand inside: it closes itself, or it is void, in any case. -/
def Tag.Childless (t : Tag) : Prop := t.selfClosing = true ∨ t.name.toLower ∈ voidTags

instance (t : Tag) : Decidable t.Childless := inferInstanceAs (Decidable (_ ∨ _))

/-- The open tags behind a closing tag, innermost first: those outside of the innermost one of its
name, in any case, or all of them if there is none. -/
def closeName (name : String) (opened : List String) : List String :=
  match opened.dropWhile fun other => other.toLower != name.toLower with
  | _ :: outer => outer
  | [] => opened

/-- The open tags behind a piece. -/
def openBehind (opened : List String) : Piece → List String
  | .text _ => opened
  | .tag t =>
    if t.closing then closeName t.name opened
    else if t.Childless then opened
    else t.name :: opened

/-- The tokens of a sequence of pieces, each with the tags that are open where it stands. -/
def placed (opened : List String) : List Piece → List (List String × Token)
  | [] => []
  | piece :: pieces =>
    (piece.token?.map fun token => (opened, token)).toList ++
      placed (openBehind opened piece) pieces

variable {above opened : List String} {name : String} {node : Markup} {nodes others : List Markup}
  {pieces : List Piece} {t : Tag}

theorem listingAll_append (nodes others : List Markup) :
    listingAll above (nodes ++ others) = listingAll above nodes ++ listingAll above others := by
  induction nodes with
  | nil => rfl
  | cons node nodes ih => rw [List.cons_append, listingAll, listingAll, ih, List.append_assoc]

theorem placed_append (front back : List Piece) :
    placed opened (front ++ back) =
      placed opened front ++ placed (front.foldl openBehind opened) back := by
  induction front generalizing opened with
  | nil => rfl
  | cons piece front ih => rw [List.cons_append, placed, placed, ih, List.append_assoc,
      List.foldl_cons]

/-- The tokens that are placed are the tokens of the pieces, in order. -/
theorem map_snd_placed (opened : List String) (pieces : List Piece) :
    (placed opened pieces).map Prod.snd = pieces.filterMap Piece.token? := by
  induction pieces generalizing opened with
  | nil => rfl
  | cons piece pieces ih =>
    rw [placed, List.map_append, ih, List.filterMap_cons]
    cases piece.token? <;> rfl

/-! ## A tree from its listing -/

/-- A listing ends where the next entry stands inside fewer tags. -/
def Ends (depth : Nat) (rest : List (List String × Token)) : Prop :=
  ∀ entry ∈ rest.head?, entry.1.length < depth

theorem ends_listingAll {rest : List (List String × Token)} (h : Ends above.length rest)
    (nodes : List Markup) : Ends (above.length + 1) (listingAll above nodes ++ rest) := by
  intro entry hentry
  cases nodes with
  | nil =>
    have hshort := h entry (by simpa [listingAll] using hentry)
    omega
  | cons node nodes =>
    have habove : entry.1 = above := by
      cases node with
      | text value =>
        cases hentry
        rfl
      | tag name attributes children =>
        cases hentry
        rfl
    rw [habove]
    omega

/-- An entry of a listing is no end of it. -/
theorem not_ends_listingAll {rest : List (List String × Token)} :
    ¬ Ends above.length (listingAll above (node :: nodes) ++ rest) := by
  intro h
  cases node with
  | text value => exact absurd (h (above, .text value) (by simp [listingAll, listing])) (by simp)
  | tag name attributes children =>
    exact absurd (h (above, .tag name attributes) (by simp [listingAll, listing])) (by simp)

/-- Trees that are listed in front of what ends them are the same if the listings are. -/
theorem eq_of_listingAll_append {above : List String} :
    ∀ {nodes others : List Markup} {rest rest' : List (List String × Token)},
      Ends above.length rest → Ends above.length rest' →
      listingAll above nodes ++ rest = listingAll above others ++ rest' →
      nodes = others ∧ rest = rest'
  | [], [], rest, rest', _, _, heq => ⟨rfl, heq⟩
  | [], other :: others, rest, rest', hrest, _, heq => by
    rw [listingAll, List.nil_append] at heq
    rw [heq] at hrest
    exact absurd hrest not_ends_listingAll
  | node :: nodes, [], rest, rest', _, hrest', heq => by
    rw [listingAll.eq_1, List.nil_append] at heq
    rw [← heq] at hrest'
    exact absurd hrest' not_ends_listingAll
  | .text value :: nodes, .text value' :: others, rest, rest', hrest, hrest', heq => by
    simp only [listingAll, listing, List.cons_append, List.nil_append, List.cons.injEq,
      Prod.mk.injEq, Token.text.injEq, true_and] at heq
    obtain ⟨rfl, hmore⟩ := heq
    obtain ⟨rfl, hsame⟩ := eq_of_listingAll_append hrest hrest' hmore
    exact ⟨rfl, hsame⟩
  | .text value :: nodes, .tag name attributes children :: others, rest, rest', _, _, heq => by
    simp [listingAll, listing] at heq
  | .tag name attributes children :: nodes, .text value :: others, rest, rest', _, _, heq => by
    simp [listingAll, listing] at heq
  | .tag name attributes children :: nodes, .tag name' attributes' children' :: others, rest,
      rest', hrest, hrest', heq => by
    simp only [listingAll, listing, List.cons_append, List.append_assoc, List.cons.injEq,
      Prod.mk.injEq, Token.tag.injEq, true_and] at heq
    obtain ⟨⟨rfl, rfl⟩, hinner⟩ := heq
    -- The children end where the nodes behind the tag go on.
    have hends : Ends (name :: above).length (listingAll above nodes ++ rest) :=
      ends_listingAll hrest nodes
    have hends' : Ends (name :: above).length (listingAll above others ++ rest') :=
      ends_listingAll hrest' others
    obtain ⟨rfl, hmore⟩ := eq_of_listingAll_append hends hends' hinner
    obtain ⟨rfl, hsame⟩ := eq_of_listingAll_append hrest hrest' hmore
    exact ⟨rfl, hsame⟩

/-- A tree is determined by its listing. -/
theorem listingAll_injective (h : listingAll above nodes = listingAll above others) :
    nodes = others := by
  have hends : Ends above.length [] := by
    intro entry hentry
    cases hentry
  have heq : listingAll above nodes ++ [] = listingAll above others ++ [] := by rw [h]
  exact (eq_of_listingAll_append hends hends heq).1

/-! ## What the builder holds -/

namespace Builder

/-- The listing of what stands in open tags, the outermost one first. -/
def listingFrames : List Frame → List (List String × Token)
  | [] => []
  | frame :: outer =>
    listingFrames outer ++ (outer.map Frame.name, .tag frame.name frame.attributes) ::
      listingAll (frame.name :: outer.map Frame.name) frame.children

/-- The listing of all that has been read. -/
def listing (b : Builder) : List (List String × Token) :=
  listingAll [] b.top ++ listingFrames b.frames

/-- The names of the open tags, innermost first. -/
def openNames (b : Builder) : List String := b.frames.map Frame.name

variable {b : Builder}

theorem openNames_add (node : Markup) : (b.add node).openNames = b.openNames := by
  unfold add openNames
  split <;> simp_all

/-- A node stands inside all open tags, behind what has been read. -/
theorem listing_add (node : Markup) :
    (b.add node).listing = b.listing ++ Markup.listing b.openNames node := by
  obtain ⟨frames, top⟩ := b
  cases frames with
  | nil => simp [add, listing, openNames, listingFrames, listingAll_append, listingAll]
  | cons frame outer =>
    simp [add, listing, openNames, listingFrames, listingAll_append, listingAll]

theorem listing_openTag (name : String) (attributes : List (String × Json)) :
    (b.openTag name attributes).listing = b.listing ++ [(b.openNames, .tag name attributes)] := by
  simp [openTag, listing, openNames, listingFrames, listingAll]

/-- Closing tags moves nothing. -/
theorem listing_close (count : Nat) : (b.close count).listing = b.listing := by
  induction count generalizing b with
  | zero => rfl
  | succ count ih =>
    obtain ⟨frames, top⟩ := b
    cases frames with
    | nil => rfl
    | cons frame outer =>
      rw [close, ih, listing_add]
      simp [listing, listingFrames, openNames, Frame.close, Markup.listing]

theorem openNames_close (count : Nat) : (b.close count).openNames = b.openNames.drop count := by
  induction count generalizing b with
  | zero => rfl
  | succ count ih =>
    obtain ⟨frames, top⟩ := b
    cases frames with
    | nil => rfl
    | cons frame outer =>
      rw [close, ih, openNames_add]
      rfl

/-- The builder closes the tags that a closing tag closes. -/
theorem drop_closedBy (name : String) :
    b.openNames.drop (b.closedBy name) = closeName name b.openNames := by
  obtain ⟨frames, top⟩ := b
  -- Frames of other names are passed over, by the builder and by the list of names.
  have hclose : (frames.findIdx? (fun frame => frame.name.toLower == name.toLower) = none ∧
        (frames.map Frame.name).dropWhile (fun other => other.toLower != name.toLower) = []) ∨
      ∃ i other, frames.findIdx? (fun frame => frame.name.toLower == name.toLower) = some i ∧
        (frames.map Frame.name).dropWhile (fun other => other.toLower != name.toLower) =
          other :: (frames.map Frame.name).drop (i + 1) := by
    induction frames with
    | nil => exact .inl ⟨rfl, rfl⟩
    | cons frame outer ih =>
      by_cases hsame : frame.name.toLower = name.toLower
      · exact .inr ⟨0, frame.name, by simp [List.findIdx?_cons, hsame], by simp [hsame]⟩
      · rw [List.findIdx?_cons, if_neg (by simpa using hsame), List.map_cons,
          List.dropWhile_cons_of_pos (by simpa using hsame)]
        rcases ih with ⟨hnone, hdrop⟩ | ⟨i, other, hsome, hdrop⟩
        · exact .inl ⟨by rw [hnone]; rfl, hdrop⟩
        · exact .inr ⟨i + 1, other, by rw [hsome]; rfl, hdrop⟩
  unfold closedBy closeName openNames
  rcases hclose with ⟨hnone, hdrop⟩ | ⟨i, other, hsome, hdrop⟩
  · rw [hnone, hdrop]
    rfl
  · rw [hsome, hdrop]

/-- What one more piece adds to the listing, and what is open behind it. -/
theorem read_piece (piece : Piece) :
    (b.read piece).listing =
        b.listing ++ (piece.token?.map fun token => (b.openNames, token)).toList ∧
      (b.read piece).openNames = openBehind b.openNames piece := by
  cases piece with
  | text raw =>
    constructor
    · rw [Piece.token?, ← Entity.ofList_decodeChars]
      exact listing_add _
    · exact openNames_add _
  | tag t =>
    by_cases hclosing : t.closing
    · have hread : b.read (.tag t) = b.close (b.closedBy t.name) := by
        rw [read]
        exact if_pos hclosing
      rw [hread, Piece.token?, if_pos hclosing, openBehind, if_pos hclosing]
      constructor
      · rw [listing_close, Option.map_none, Option.toList_none, List.append_nil]
      · rw [openNames_close, drop_closedBy]
    · have hopening : t.closing = false := by simpa using hclosing
      rw [Piece.token?, if_neg hclosing, openBehind, if_neg hclosing]
      by_cases hchildless : t.Childless
      · have hvoid : (t.selfClosing || voidTags.contains t.name.toLower) = true := by
          simpa [Tag.Childless] using hchildless
        rw [read_void hopening hvoid, if_pos hchildless]
        constructor
        · exact listing_add _
        · exact openNames_add _
      · have hvoid : (t.selfClosing || voidTags.contains t.name.toLower) = false := by
          simpa [Tag.Childless] using hchildless
        rw [read_opening hopening hvoid, if_neg hchildless]
        constructor
        · exact listing_openTag _ _
        · rfl

/-- What a run of pieces adds to the listing. -/
theorem listing_foldl (pieces : List Piece) :
    (pieces.foldl read b).listing = b.listing ++ placed b.openNames pieces := by
  induction pieces generalizing b with
  | nil => simp [placed]
  | cons piece pieces ih =>
    obtain ⟨hlisting, hopened⟩ := read_piece (b := b) piece
    rw [List.foldl_cons, ih, hlisting, hopened, placed, List.append_assoc]

/-- When all tags are closed, the listing is that of the top-level nodes. -/
theorem listing_finish (b : Builder) : listingAll [] b.finish = b.listing := by
  have hnone : (b.close b.frames.length).frames = [] := by
    have hopened := openNames_close (b := b) b.frames.length
    rw [openNames, openNames, List.drop_eq_nil_of_le (by simp)] at hopened
    exact List.map_eq_nil_iff.1 hopened
  have hlisting := listing_close (b := b) b.frames.length
  rw [listing, hnone, listingFrames, List.append_nil] at hlisting
  exact hlisting

end Builder

/-- The listing of the tree of a sequence of pieces. -/
theorem listing_ofPieces (pieces : List Piece) :
    listingAll [] (ofPieces pieces) = placed [] pieces := by
  rw [ofPieces, Builder.listing_finish, Builder.listing_foldl]
  rfl

/-- Sequences whose tokens stand in the same places have the same tree. -/
theorem ofPieces_congr {pieces others : List Piece} (h : placed [] pieces = placed [] others) :
    ofPieces pieces = ofPieces others := by
  have hlisting : listingAll [] (ofPieces pieces) = listingAll [] (ofPieces others) := by
    rw [listing_ofPieces, listing_ofPieces, h]
  exact listingAll_injective hlisting

/-! ## Closing tags and tags without children -/

/-- A closing tag whose name is not open closes nothing. -/
theorem closeName_of_forall_ne (h : ∀ other ∈ opened, other.toLower ≠ name.toLower) :
    closeName name opened = opened := by
  have hall : opened.dropWhile (fun other => other.toLower != name.toLower) = [] := by
    apply List.dropWhile_eq_nil_iff.2
    intro other hother
    simpa using h other hother
  rw [closeName, hall]

/-- Behind a closing tag a part of the tags is open, the outer ones. -/
theorem closeName_suffix (name : String) (opened : List String) :
    closeName name opened <:+ opened := by
  unfold closeName
  split
  · rename_i inner outer hdrop
    have hsuffix := List.dropWhile_suffix (l := opened) fun other => other.toLower != name.toLower
    rw [hdrop] at hsuffix
    exact (List.suffix_cons inner outer).trans hsuffix
  · exact List.suffix_rfl

/-- A piece without a token is a closing tag. -/
theorem exists_closing_of_token?_eq_none {piece : Piece} (h : piece.token? = none) :
    ∃ t, piece = .tag t ∧ t.closing = true := by
  cases piece with
  | text raw => cases h
  | tag t =>
    refine ⟨t, rfl, ?_⟩
    by_contra hopening
    rw [Piece.token?, if_neg hopening] at h
    cases h

/-- What stands next stands inside no tag that is not open yet. -/
theorem suffix_of_mem_head?_placed (opened : List String) (pieces : List Piece) :
    ∀ next ∈ (placed opened pieces).head?, next.1 <:+ opened := by
  induction pieces generalizing opened with
  | nil =>
    intro next hnext
    cases hnext
  | cons piece pieces ih =>
    intro next hnext
    rw [placed] at hnext
    cases htoken : piece.token? with
    | some token =>
      rw [htoken] at hnext
      cases hnext
      exact List.suffix_rfl
    | none =>
      obtain ⟨t, rfl, hclosing⟩ := exists_closing_of_token?_eq_none htoken
      rw [htoken, openBehind, if_pos hclosing] at hnext
      exact (ih _ next hnext).trans (closeName_suffix t.name opened)

/-- A closing tag whose name is not open can be left out. -/
theorem placed_stray (front back : List Piece) (hclosing : t.closing = true)
    (hstray : ∀ other ∈ front.foldl openBehind opened, other.toLower ≠ t.name.toLower) :
    placed opened (front ++ .tag t :: back) = placed opened (front ++ back) := by
  have hsame : openBehind (front.foldl openBehind opened) (.tag t) =
      front.foldl openBehind opened := by
    rw [openBehind, if_pos hclosing, closeName_of_forall_ne hstray]
  rw [placed_append, placed_append, placed, hsame, Piece.token?, if_pos hclosing]
  rfl

/-- What follows a tag without children has the same places as it had without the tag. -/
theorem placed_childless (front back : List Piece) (hopening : ¬ t.closing = true)
    (hchildless : t.Childless) :
    placed opened (front ++ .tag t :: back) =
      placed opened front ++ (front.foldl openBehind opened, .tag t.name t.attributes) ::
        placed (front.foldl openBehind opened) back := by
  have hsame : openBehind (front.foldl openBehind opened) (.tag t) =
      front.foldl openBehind opened := by
    rw [openBehind, if_neg hopening, if_pos hchildless]
  rw [placed_append, placed, hsame, Piece.token?, if_neg hopening]
  rfl

/-- The closing tags of the open tags, innermost first. -/
def closingAll (opened : List String) : List Piece :=
  opened.map fun name => .tag { closing := true, name, attributes := [], selfClosing := false }

theorem placed_closingAll (opened names : List String) : placed opened (closingAll names) = [] := by
  induction names generalizing opened with
  | nil => rfl
  | cons name names ih => exact ih _

/-- A closing tag of the innermost open tag closes it alone. -/
theorem foldl_closingAll (names : List String) :
    (closingAll names).foldl openBehind names = [] := by
  induction names with
  | nil => rfl
  | cons name names ih =>
    have hclose : closeName name (name :: names) = names := by simp [closeName]
    rw [closingAll, List.map_cons, List.foldl_cons, openBehind, if_pos rfl, hclose]
    exact ih

/-! ## The tree of a source -/

/-- What a tree has to do with a source and the pieces that it is cut into. -/
structure Faithful (source : String) (pieces : List Piece) (nodes : List Markup) : Prop where
  /-- The source has these pieces and no others. -/
  cut : ∀ others, Piece.Cut source.toList others ↔ others = pieces
  /-- All tokens of the source stand in the tree, in order, and nothing else does. -/
  tokens : (listingAll [] nodes).map Prod.snd = pieces.filterMap Piece.token?
  /-- Each token stands inside the tags that are open where it is, in this tree only. -/
  places : ∀ others, listingAll [] others = placed [] pieces ↔ others = nodes
  /-- A closing tag without an opening one changes nothing. -/
  stray : ∀ front t back, pieces = front ++ .tag t :: back → t.closing = true →
    (∀ other ∈ front.foldl openBehind [], other.toLower ≠ t.name.toLower) →
    nodes = ofPieces (front ++ back)
  /-- What is listed behind a tag without children stands outside of it. -/
  childless : ∀ front t back, pieces = front ++ .tag t :: back → t.closing = false → t.Childless →
    ∃ rest, listingAll [] nodes =
        placed [] front ++ (front.foldl openBehind [], .tag t.name t.attributes) :: rest ∧
      ∀ next ∈ rest.head?, next.1 <:+ front.foldl openBehind []
  /-- Tags that are open at the end are closed there. -/
  unclosed : nodes = ofPieces (pieces ++ closingAll (pieces.foldl openBehind [])) ∧
    (pieces ++ closingAll (pieces.foldl openBehind [])).foldl openBehind [] = []
  /-- Without any tag the source is one text. -/
  plain : occursIn source = false →
    nodes = if source.isEmpty then [] else [.text (Entity.decodeOnce source)]

/-- A source without any tag is one piece, if it is not empty. -/
theorem scan_of_not_occursIn {source : String} (h : occursIn source = false) :
    Piece.scan source = Piece.ofText source.toList := by
  have hcut : Piece.Cut source.toList (Piece.scan source) := Piece.cut_iff.2 rfl
  have hnone : ∀ piece ∈ Piece.scan source, piece.isTag = false := by
    simpa [occursIn, List.any_eq_false] using h
  generalize Piece.scan source = pieces at hcut hnone
  generalize source.toList = cs at hcut
  cases hcut with
  | ending hplain => rfl
  | @tag raw written rest t pieces hplain htag hrest =>
    have htag := hnone (.tag t) (List.mem_append_right _ List.mem_cons_self)
    cases htag

/-- A source without any tag is read as one text. -/
theorem parse_of_not_occursIn {source : String} (h : occursIn source = false) :
    parse source = if source.isEmpty then [] else [.text (Entity.decodeOnce source)] := by
  rw [parse, scan_of_not_occursIn h, Piece.ofText, ← Entity.decode_eq_decodeOnce]
  by_cases hempty : source.isEmpty
  · have hchars : source.toList.isEmpty := by simpa using hempty
    rw [if_pos hempty, if_pos hchars]
    rfl
  · have hchars : ¬ source.toList.isEmpty := by simpa using hempty
    rw [if_neg hempty, if_neg hchars]
    rfl

/-- Nothing of a source is lost, nothing is added and nothing is moved. -/
theorem faithful_parse (source : String) :
    ∃ pieces, Faithful source pieces (parse source) := by
  have hlisting : listingAll [] (parse source) = placed [] (Piece.scan source) := listing_ofPieces _
  refine ⟨Piece.scan source, ?_⟩
  constructor
  case cut =>
    intro others
    exact Piece.cut_iff
  case tokens =>
    rw [hlisting, map_snd_placed]
  case places =>
    intro others
    constructor
    · intro hothers
      exact listingAll_injective (hothers.trans hlisting.symm)
    · rintro rfl
      exact hlisting
  case stray =>
    intro front t back hpieces hclosing hstray
    rw [parse, hpieces]
    exact ofPieces_congr (placed_stray front back hclosing hstray)
  case childless =>
    intro front t back hpieces hopening hchildless
    rw [hlisting, hpieces, placed_childless front back (by simp [hopening]) hchildless]
    exact ⟨_, rfl, suffix_of_mem_head?_placed _ back⟩
  case unclosed =>
    constructor
    · apply ofPieces_congr
      rw [placed_append, placed_closingAll, List.append_nil]
    · rw [List.foldl_append]
      exact foldl_closingAll _
  case plain =>
    exact parse_of_not_occursIn

/-- A source with a closing tag that closes nothing, one that is never closed and stays open, and
entities, one of which is written with another one. -/
def boldNotice : String := "</p>x<b title='1 &lt; 2'>bold<br>&amp;lt;</i>"

/-- All that follows the open tag stands inside it, and nothing is decoded twice. -/
def boldNoticeTree : List Markup :=
  [.text "x", .tag "b" [("title", .string "1 < 2")]
    [.text "bold", .tag "br" [] [], .text "&lt;"]]

theorem faithful_parse_boldNotice : ∃ pieces, Faithful boldNotice pieces boldNoticeTree := by
  have hlisting : listingAll [] (parse boldNotice) = listingAll [] boldNoticeTree := by
    decide +kernel
  rw [← listingAll_injective hlisting]
  exact faithful_parse boldNotice

end Markup

end ViewSchema
