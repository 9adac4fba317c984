import ViewSchema.Json.Value
import ViewSchema.Markup.Entity
import ViewSchema.Text.Blank

/-!
# Tags

The tags of inline markup and the scanner that finds them. A tag is an angle
bracket, an optional slash, a name that begins with a letter, attributes that
blanks set apart, an optional slash and the closing bracket. Whatever does not
have this form is text.
-/

namespace ViewSchema

namespace Markup

/-- A tag as written. -/
structure Tag where
  /-- The slash stands before the name. -/
  closing : Bool
  name : String
  attributes : List (String × Json)
  /-- The slash stands before the closing bracket. -/
  selfClosing : Bool
deriving Repr

namespace Tag

def isNameStart (c : Char) : Bool := c.isAlpha

def isNameChar (c : Char) : Bool := c.isAlphanum || c == ':' || c == '-'

def isAttributeChar (c : Char) : Bool :=
  !(isBlank c || c == '=' || c == '/' || c == '>')

def isBareValueChar (c : Char) : Bool :=
  !(isBlank c || c == '"' || c == '\'' || c == '>')

/-- The value after an equals sign: quoted, or a run of other characters. -/
def readValue? (cs : List Char) : Option (List Char × List Char) :=
  match cs with
  | [] => none
  | c :: rest =>
    if c = '"' ∨ c = '\'' then
      match rest.dropWhile (· != c) with
      | _ :: after => some (rest.takeWhile (· != c), after)
      | [] => none
    else
      let run := cs.takeWhile isBareValueChar
      if run.isEmpty then none else some (run, cs.drop run.length)

/-- An equals sign and a value, with blanks around the sign. -/
def readAssigned? (cs : List Char) : Option (List Char × List Char) :=
  match cs.dropWhile isBlank with
  | '=' :: rest => readValue? (rest.dropWhile isBlank)
  | _ => none

/-- An attribute after at least one blank. Without a value it is true. -/
def readAttribute? (cs : List Char) : Option ((String × Json) × List Char) :=
  match cs with
  | [] => none
  | c :: _ =>
    if isBlank c then
      let start := cs.dropWhile isBlank
      let name := start.takeWhile isAttributeChar
      if name.isEmpty then none
      else
        let rest := start.drop name.length
        match readAssigned? rest with
        | some (value, after) =>
          some ((String.ofList name, .string (String.ofList (Entity.decodeChars value))), after)
        | none => some ((String.ofList name, .bool true), rest)
    else none

/-- All attributes that follow each other; there are at most `limit` of them. -/
def readAttributes (limit : Nat) (cs : List Char) : List (String × Json) × List Char :=
  match limit with
  | 0 => ([], cs)
  | limit + 1 =>
    match readAttribute? cs with
    | some (first, rest) =>
      let (others, after) := readAttributes limit rest
      (first :: others, after)
    | none => ([], cs)

/-- The end of a tag: whether a slash closes it, and what follows. -/
def readEnding? (cs : List Char) : Option (Bool × List Char) :=
  match cs.dropWhile isBlank with
  | '/' :: '>' :: rest => some (true, rest)
  | '>' :: rest => some (false, rest)
  | _ => none

/-- A tag whose opening bracket has been read, and what follows it. -/
def read? (cs : List Char) : Option (Tag × List Char) :=
  let (closing, cs) := match cs with
    | '/' :: rest => (true, rest)
    | rest => (false, rest)
  match cs with
  | c :: _ =>
    if isNameStart c then
      let name := cs.takeWhile isNameChar
      let (written, rest) := readAttributes cs.length (cs.drop name.length)
      (readEnding? rest).map fun (selfClosing, after) =>
        ({ closing, name := String.ofList name, attributes := Fields.ofList written,
           selfClosing }, after)
    else none
  | [] => none

end Tag

/-- A stretch of source: text between tags, as written, or a tag. -/
inductive Piece where
  | text (raw : List Char)
  | tag (tag : Tag)
deriving Repr

namespace Piece

def isTag : Piece → Bool
  | text _ => false
  | tag _ => true

/-- Pending text in reverse, as a piece unless it is empty. -/
def flush (pending : List Char) : List Piece :=
  if pending.isEmpty then [] else [text pending.reverse]

/-- The pieces of a source. `skip` characters belong to a tag that has been
read, and `pending` is the text before the current place, in reverse. -/
def scanFrom : Nat → List Char → List Char → List Piece
  | _, pending, [] => flush pending
  | skip + 1, pending, _ :: rest => scanFrom skip pending rest
  | 0, pending, c :: rest =>
    if c = '<' then
      match Tag.read? rest with
      | some (t, after) =>
        flush pending ++ tag t :: scanFrom (rest.length - after.length) [] rest
      | none => scanFrom 0 (c :: pending) rest
    else scanFrom 0 (c :: pending) rest

/-- The pieces of a source, in order. -/
def scan (source : String) : List Piece := scanFrom 0 [] source.toList

end Piece

end Markup

end ViewSchema
