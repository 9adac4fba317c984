import ViewSchema.Number.Decimal
import ViewSchema.Yaml.Cursor

/-!
# The text of scalars

How quoted, plain and block scalars are read. Blanks and line ends within a
scalar are folded: a single line end counts as one blank, further ones count as
themselves, and blanks around them do not count.

Main definitions:

- `Gap` is what stands between two words; `Gap.text` is what it counts as.
- `Cursor.quoted?`, `Cursor.plain?` and `Cursor.block?` read one scalar each.
-/

namespace ViewSchema.Yaml

/-- Blanks and line ends between two words. -/
structure Gap where
  /-- Blanks before the first line end. -/
  blanks : List Char
  /-- The first line end; an escaped one counts as nothing. -/
  first : Option (List Char)
  /-- Further line ends. -/
  others : List Char
deriving Repr

namespace Gap

def none : Gap := ⟨[], Option.none, []⟩

def isNone (g : Gap) : Bool := g.blanks.isEmpty && g.first.isNone

/-- Whether a line has ended. -/
def crossesLine (g : Gap) : Bool := g.first.isSome

/-- With one more blank. -/
def blank (g : Gap) (c : Char) : Gap :=
  if g.crossesLine then g else { g with blanks := g.blanks ++ [c] }

/-- With one more line end. -/
def newline (g : Gap) (text : List Char) : Gap :=
  match g.first with
  | Option.none => ⟨[], some text, []⟩
  | some _ => { g with others := g.others ++ text }

/-- What a gap counts as between two words. -/
def text (g : Gap) : List Char :=
  match g.first with
  | Option.none => g.blanks
  | some ['\n'] => if g.others.isEmpty then [' '] else g.others
  | some first => first ++ g.others

end Gap

/-! ## Quoted scalars -/

/-- The character that a letter stands for after a backslash. -/
def escaped? : Char → Option Char
  | '0' => some '\x00'
  | 'a' => some '\x07'
  | 'b' => some '\x08'
  | 't' => some '\t'
  | '\t' => some '\t'
  | 'n' => some '\n'
  | 'v' => some '\x0b'
  | 'f' => some '\x0c'
  | 'r' => some '\r'
  | 'e' => some '\x1b'
  | ' ' => some ' '
  | '"' => some '"'
  | '/' => some '/'
  | '\\' => some '\\'
  | 'N' => some '\u0085'
  | '_' => some '\u00a0'
  | 'L' => some '\u2028'
  | 'P' => some '\u2029'
  | _ => none

/-- How many hexadecimal digits follow a letter after a backslash. -/
def escapeDigits? : Char → Option Nat
  | 'x' => some 2
  | 'u' => some 4
  | 'U' => some 8
  | _ => none

/-- The character with a code, if there is one. -/
def charOfCode? (code : Nat) : Option Char :=
  if h : code.isValidChar then some (Char.ofNatAux code h) else none

/-- The character with a hexadecimal code of a fixed number of digits. -/
def hexChar? (digits : List Char) (count : Nat) : Option Char :=
  if digits.length < count then none
  else (ofBaseDigits? 16 (digits.take count)).bind charOfCode?

namespace Cursor

/-- Go on with a quoted scalar; `read` holds what was read, in reverse. -/
def quotedFrom (single : Bool) : Nat → Cursor → Gap → List Char → Option (String × Cursor)
  | 0, _, _, _ => none
  | fuel + 1, c, gap, read =>
    match c.rest with
    | [] => none
    | d :: rest =>
      if isSpacing d then quotedFrom single fuel (c.skip 1) (gap.blank d) read
      else if isBreak d then
        let (text, next) := c.readBreak
        quotedFrom single fuel next (gap.newline text) read
      else if c.atMarker then none
      else
        let read := gap.text.reverse ++ read
        if single then
          if d = '\'' then
            if rest.head? = some '\'' then quotedFrom single fuel (c.skip 2) .none ('\'' :: read)
            else some (String.ofList read.reverse, c.skip 1)
          else quotedFrom single fuel (c.skip 1) .none (d :: read)
        else if d = '"' then some (String.ofList read.reverse, c.skip 1)
        else if d = '\\' then
          match rest with
          | [] => none
          | e :: digits =>
            if isBreak e then
              quotedFrom single fuel (c.skip 1).readBreak.2 ⟨[], some [], []⟩ read
            else
              match escaped? e, escapeDigits? e with
              | some x, _ => quotedFrom single fuel (c.skip 2) .none (x :: read)
              | none, some count =>
                match hexChar? digits count with
                | some x => quotedFrom single fuel (c.skip (2 + count)) .none (x :: read)
                | none => none
              | none, none => none
        else quotedFrom single fuel (c.skip 1) .none (d :: read)

/-- A quoted scalar, from its opening quote. -/
def quoted? (c : Cursor) (single : Bool) : Option (String × Cursor) :=
  quotedFrom single (c.rest.length + 1) (c.skip 1) .none []

/-! ## Plain scalars -/

/-- Characters that enclose or divide flow collections. -/
def isFlowIndicator (d : Char) : Bool := [',', '[', ']', '\x7b', '\x7d'].contains d

/-- Go on with a plain scalar; further lines begin at `indent` or beyond. The
answer says whether the scalar is followed by a line end. -/
def plainFrom (inFlow : Bool) (indent : Nat) :
    Nat → Cursor → Gap → List Char → Option (String × Cursor × Bool)
  | 0, _, _, _ => none
  | fuel + 1, c, gap, read =>
    let done := some (String.ofList read.reverse, c, gap.crossesLine)
    match c.rest with
    | [] => done
    | d :: _ =>
      if isSpacing d then
        if gap.crossesLine && c.column < indent && d == '\t' then none
        else plainFrom inFlow indent fuel (c.skip 1) (gap.blank d) read
      else if isBreak d then
        let (text, next) := c.readBreak
        plainFrom inFlow indent fuel next (gap.newline text) read
      else if !gap.isNone && ((!inFlow && c.column < indent) || c.atMarker || d == '#') then done
      else if inFlow && d == ':' && c.sees 1 (fun e => e == '?' || isFlowIndicator e) then none
      else if (d == ':' && c.endsAt 1) || (inFlow && isFlowIndicator d) then done
      else
        plainFrom inFlow indent fuel (c.skip 1) .none (d :: (gap.text.reverse ++ read))

/-- A plain scalar. -/
def plain? (c : Cursor) (inFlow : Bool) (indent : Nat) : Option (String × Cursor × Bool) :=
  plainFrom inFlow indent (c.rest.length + 1) c .none []

/-! ## Block scalars -/

/-- What becomes of the line ends after a block scalar. -/
inductive Chomping where
  | strip
  | clip
  | keep
deriving DecidableEq, Repr

def chomping? : Option Char → Option Chomping
  | some '-' => some .strip
  | some '+' => some .keep
  | _ => none

/-- The indentation that a header asks for; zero is refused. -/
def indentDigit? (d : Option Char) : Option (Option Nat) :=
  match d with
  | some d =>
    if d.isDigit then if d = '0' then none else some (some (d.toNat - '0'.toNat))
    else some none
  | none => some none

/-- Chomping and indentation, in either order. -/
def blockHeader? (c : Cursor) : Option (Chomping × Option Nat × Cursor) :=
  match chomping? (c.peek 0) with
  | some chomping =>
    (indentDigit? (c.peek 1)).map fun indent =>
      (chomping, indent, c.skip (if indent.isSome then 2 else 1))
  | none =>
    (indentDigit? (c.peek 0)).map fun indent =>
      match indent, chomping? (c.peek 1) with
      | some _, some chomping => (chomping, indent, c.skip 2)
      | some _, none => (.clip, indent, c.skip 1)
      | none, _ => (.clip, none, c)

/-- Empty lines and indentation before a line of a block scalar. Without a known
indentation all blanks are indentation, and the widest one is found. -/
def blockGap (indent : Option Nat) :
    Nat → Cursor → Nat → List Char → Option (Nat × List Char × Cursor)
  | 0, _, _, _ => none
  | fuel + 1, c, widest, breaks =>
    let inside := fun (column : Nat) => match indent with
      | some n => column < n
      | none => true
    let room := match indent with
      | some n => n - c.column
      | none => c.rest.length
    let c := c.skip (min room (c.rest.takeWhile (· == ' ')).length)
    let widest := max widest c.column
    match c.rest with
    | [] => some (widest, breaks, c)
    | d :: _ =>
      if inside c.column && d == '\t' then none
      else if isBreak d then
        let (text, next) := c.readBreak
        blockGap indent fuel next widest (breaks ++ text)
      else some (widest, breaks, c)

/-- What precedes the next line of a block scalar: the end of the last line, the
empty lines after it, and whether that line began with a blank. -/
structure BlockSeam where
  lineEnd : List Char
  emptyLines : List Char
  afterBlank : Bool

/-- The text between two lines: in a folded scalar a single line end between
lines without leading blanks counts as one blank. -/
def BlockSeam.text (seam : BlockSeam) (literal beforeBlank : Bool) : List Char :=
  if !literal && seam.lineEnd == ['\n'] && !seam.afterBlank && !beforeBlank then
    (if seam.emptyLines.isEmpty then [' '] else []) ++ seam.emptyLines
  else seam.lineEnd ++ seam.emptyLines

/-- The lines of a block scalar; `read` holds what was read, in reverse. -/
def blockLines (literal : Bool) (indent : Nat) :
    Nat → Cursor → BlockSeam → List Char → Option (List Char × BlockSeam × Cursor)
  | 0, _, _, _ => none
  | fuel + 1, c, seam, read =>
    if c.column == indent && !c.rest.isEmpty then
      let startsBlank := c.sees 0 isSpacing
      let line := c.rest.takeWhile fun d => !isBreak d
      let read := line.reverse ++ ((seam.text literal startsBlank).reverse ++ read)
      let (lineEnd, next) := (c.skip line.length).readBreak
      match blockGap (some indent) (next.rest.length + 1) next 0 [] with
      | some (_, emptyLines, next) =>
        blockLines literal indent fuel next ⟨lineEnd, emptyLines, startsBlank⟩ read
      | none => none
    else some (read, seam, c)

/-- A block scalar, from its indicator. Its lines stand at `outer` or beyond. -/
def block? (c : Cursor) (literal : Bool) (outer : Nat) : Option (String × Cursor) := do
  let (chomping, increment, c) ← blockHeader? (c.skip 1)
  let c := c.skipWhile isSpacing
  let c := if c.sees 0 (· == '#') then c.skipWhile (fun d => !isBreak d) else c
  if !c.endsLine then none
  else
    let c := c.readBreak.2
    let known := increment.map fun n => if 0 < outer then outer - 1 + n else n
    let (widest, breaks, c) ← blockGap known (c.rest.length + 1) c 0 []
    let indent := known.getD (max (max widest outer) 1)
    let (read, seam, c) ← blockLines literal indent (c.rest.length + 1) c ⟨[], breaks, false⟩ []
    let tail := match chomping with
      | .strip => []
      | .clip => seam.lineEnd
      | .keep => seam.lineEnd ++ seam.emptyLines
    some (String.ofList (read.reverse ++ tail), c)

end Cursor

end ViewSchema.Yaml
