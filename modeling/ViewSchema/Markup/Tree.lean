import ViewSchema.ClassList
import ViewSchema.Markup.Tag

/-!
# Markup trees

Inline markup as a tree of texts and tags. Reading is tolerant: a closing tag
without an opening one is dropped, and tags that stay open are closed at the
end.
-/

namespace ViewSchema

/-- Inline markup. -/
inductive Markup where
  | text (value : String)
  | tag (name : String) (attributes : List (String × Json)) (children : List Markup)
deriving Repr

namespace Markup

/-- Tags that never have children. -/
def voidTags : List String := ["br", "hr", "img", "input", "meta", "link", "source", "wbr"]

/-- A tag that is still open, with the children read so far. -/
structure Frame where
  name : String
  attributes : List (String × Json)
  children : List Markup

/-- The tag of a frame, closed. -/
def Frame.close (frame : Frame) : Markup := .tag frame.name frame.attributes frame.children

/-- Open tags, innermost first, above the finished top-level nodes. -/
structure Builder where
  frames : List Frame
  top : List Markup

namespace Builder

/-- A builder that has read nothing. -/
def empty : Builder := ⟨[], []⟩

/-- Add a finished node to the innermost open tag. -/
def add (b : Builder) (node : Markup) : Builder :=
  match b.frames with
  | [] => { b with top := b.top ++ [node] }
  | frame :: outer =>
    { b with frames := { frame with children := frame.children ++ [node] } :: outer }

/-- Close the innermost `count` tags. -/
def close (b : Builder) : Nat → Builder
  | 0 => b
  | count + 1 =>
    match b.frames with
    | [] => b
    | frame :: outer => (add { b with frames := outer } frame.close).close count

/-- Open a tag. -/
def openTag (b : Builder) (name : String) (attributes : List (String × Json)) : Builder :=
  { b with frames := ⟨name, attributes, []⟩ :: b.frames }

/-- How many tags a closing tag closes: those up to the innermost one of its
name, in any case. -/
def closedBy (b : Builder) (name : String) : Nat :=
  match b.frames.findIdx? fun frame => frame.name.toLower == name.toLower with
  | some i => i + 1
  | none => 0

/-- Read one piece. -/
def read (b : Builder) (piece : Piece) : Builder :=
  match piece with
  | .text raw => b.add (.text (String.ofList (Entity.decodeChars raw)))
  | .tag t =>
    if t.closing then b.close (b.closedBy t.name)
    else if t.selfClosing || voidTags.contains t.name.toLower then
      b.add (.tag t.name t.attributes [])
    else b.openTag t.name t.attributes

/-- Close all open tags and give the top-level nodes. -/
def finish (b : Builder) : List Markup := (b.close b.frames.length).top

end Builder

/-- The tree of a sequence of pieces. -/
def ofPieces (pieces : List Piece) : List Markup :=
  (pieces.foldl Builder.read Builder.empty).finish

/-- The tree of a source text. -/
def parse (source : String) : List Markup := ofPieces (Piece.scan source)

/-- Whether a text holds any tag. -/
def occursIn (text : String) : Bool := (Piece.scan text).any Piece.isTag

/-- The component that stands in for a tag, in any case. -/
def componentFor? (tag : String) : Option String :=
  match tag.toLower with
  | "a" => some "Link"
  | "navlink" => some "NavLink"
  | "icons" => some "Icons"
  | "input" => some "Field"
  | "select" => some "SelectField"
  | "textarea" => some "TextareaField"
  | _ => none

/-- Attributes as props of an element; both spellings of the class attribute
become a class list. -/
def propsOf (attributes : List (String × Json)) : List (String × Json) :=
  attributes.foldl
    (fun props attr =>
      if attr.1 = "class" ∨ attr.1 = "className" then
        Fields.set props "classes" (ClassList.ofJson attr.2).toJson
      else Fields.set props attr.1 attr.2)
    []

end Markup

end ViewSchema
