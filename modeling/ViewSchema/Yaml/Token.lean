import ViewSchema.Yaml.Scalar

/-!
# YAML tokens

A text as tokens. Indentation becomes start and end tokens of block collections.
A key in front of a colon is recognised when the colon comes: until then the
scanner remembers where the key began, and puts the key token there.

Main definitions:

- `Token` and `Scanner`, the state of scanning.
- `Token.ofText?` scans a whole text.
-/

namespace ViewSchema.Yaml

inductive Token where
  | versionDirective (major minor : Nat)
  | tagDirective (handle lead : String)
  | documentStart
  | documentEnd
  | blockSequenceStart
  | blockMappingStart
  | blockEnd
  | flowSequenceStart
  | flowSequenceEnd
  | flowMappingStart
  | flowMappingEnd
  | blockEntry
  | flowEntry
  | key
  | value
  | alias (name : String)
  | anchor (name : String)
  | tag (handle suffix : String)
  | scalar (text : String) (plain : Bool)
deriving DecidableEq, Repr

/-- A place where a key may have begun. -/
structure PossibleKey where
  /-- How many tokens stand before it. -/
  place : Nat
  index : Nat
  line : Nat
  column : Nat
  /-- A key must begin here, since it opens a line of a block mapping. -/
  required : Bool
deriving Repr

/-- The state of scanning. -/
structure Scanner where
  cursor : Cursor
  /-- Tokens so far, the last one first. -/
  tokens : List Token
  count : Nat
  /-- Columns of the open block collections, the innermost first. -/
  blocks : List Nat
  /-- The possible key at the innermost level. -/
  key : Option PossibleKey
  /-- The possible keys around the open flow collections. -/
  outerKeys : List (Option PossibleKey)
  keyAllowed : Bool
deriving Repr

namespace Scanner

def start (cs : List Char) : Scanner :=
  { cursor := .start cs, tokens := [], count := 0, blocks := [], key := none, outerKeys := [],
    keyAllowed := true }

/-- The least column of what is nested in the innermost block. -/
def nestedColumn (s : Scanner) : Nat :=
  match s.blocks with
  | column :: _ => column + 1
  | [] => 0

def inFlow (s : Scanner) : Bool := !s.outerKeys.isEmpty

def push (s : Scanner) (token : Token) : Scanner :=
  { s with tokens := token :: s.tokens, count := s.count + 1 }

/-- Put a token where only `place` tokens stand before it. -/
def insertAt (s : Scanner) (place : Nat) (token : Token) : Scanner :=
  let later := s.count - place
  { s with tokens := s.tokens.take later ++ token :: s.tokens.drop later, count := s.count + 1 }

def moveTo (s : Scanner) (cursor : Cursor) : Scanner := { s with cursor }

def allowKey (s : Scanner) (keyAllowed : Bool) : Scanner := { s with keyAllowed }

/-- Keys stand on one line and are no longer than this. -/
def maxKeyLength : Nat := 1024

/-- Forget a possible key that is too far away; a required one must not be. -/
def PossibleKey.refresh? (c : Cursor) (key : Option PossibleKey) :
    Option (Option PossibleKey) :=
  match key with
  | some k =>
    if k.line < c.line || k.index + maxKeyLength < c.index then
      if k.required then none else some none
    else some (some k)
  | none => some none

def refreshKeys? (s : Scanner) : Option Scanner := do
  let key ← PossibleKey.refresh? s.cursor s.key
  let outerKeys ← s.outerKeys.mapM (PossibleKey.refresh? s.cursor)
  some { s with key, outerKeys }

/-- Give up the possible key; a required one must not be given up. -/
def dropKey? (s : Scanner) : Option Scanner :=
  match s.key with
  | some k => if k.required then none else some { s with key := none }
  | none => some s

/-- Remember that a key may begin here. -/
def saveKey? (s : Scanner) : Option Scanner :=
  if s.keyAllowed then
    let c := s.cursor
    let required := !s.inFlow && s.nestedColumn == c.column + 1
    let key : PossibleKey := ⟨s.count, c.index, c.line, c.column, required⟩
    (s.dropKey?).map fun s => { s with key := some key }
  else some s

/-- Open a block collection at a column, unless one is open there. Its start
token goes to a place, or to the end. -/
def openBlock (s : Scanner) (column : Nat) (place : Option Nat) (token : Token) : Scanner :=
  if s.inFlow || column < s.nestedColumn then s
  else
    let opened := { s with blocks := column :: s.blocks }
    match place with
    | some n => opened.insertAt n token
    | none => opened.push token

/-- Close the block collections that stand at `least` or beyond. -/
def closeBlocks (s : Scanner) (least : Nat) : Scanner :=
  if s.inFlow then s
  else
    let closed := s.blocks.takeWhile fun column => least ≤ column
    closed.foldl (fun s _ => s.push .blockEnd)
      { s with blocks := s.blocks.drop closed.length }

/-! ## Blanks, comments and directives -/

/-- Go to the next token. A byte order mark at the beginning is skipped; it takes
a column. -/
def skipBlanks : Nat → Scanner → Scanner
  | 0, s => s
  | fuel + 1, s =>
    let c := s.cursor
    let c := if c.index == 0 && c.sees 0 (· == '\ufeff') then c.skip 1 else c
    let tabs := s.inFlow || !s.keyAllowed
    let c := c.skipWhile fun d => d == ' ' || (tabs && d == '\t')
    let c := if c.sees 0 (· == '#') then c.skipWhile (fun d => !isBreak d) else c
    if c.sees 0 isBreak then
      skipBlanks fuel { s with
        cursor := c.readBreak.2
        keyAllowed := s.keyAllowed || !s.inFlow }
    else s.moveTo c

/-- The rest of a line that may hold a comment. -/
def endOfLine? (c : Cursor) : Option Cursor :=
  let c := c.skipWhile isSpacing
  let c := if c.sees 0 (· == '#') then c.skipWhile (fun d => !isBreak d) else c
  if c.endsLine then some c.readBreak.2 else none

/-- Characters that satisfy a test, at least one. -/
def some? (c : Cursor) (test : Char → Bool) : Option (String × Cursor) :=
  let taken := c.rest.takeWhile test
  if taken.isEmpty then none else some (String.ofList taken, c.skip taken.length)

/-- A number of a version, of at most nine digits. -/
def versionNumber? (c : Cursor) : Option (Nat × Cursor) :=
  (some? c Char.isDigit).bind fun (digits, c) =>
    if 9 < digits.length then none
    else some (digits.toList.foldl (fun n d => 10 * n + (d.toNat - '0'.toNat)) 0, c)

/-! ## Tags -/

/-- Characters of a tag, besides those of names; brackets and commas count inside
angle brackets only. -/
def isTagChar (verbatim : Bool) (d : Char) : Bool :=
  isNameChar d || ";/?:@&=+$.%!~*'()".toList.contains d
    || (verbatim && [',', '[', ']'].contains d)

/-- Bytes for which percent signs and hexadecimal digits stand. -/
def percentBytes? : Nat → List Char → Option (List UInt8)
  | 0, _ => none
  | _, [] => some []
  | fuel + 1, '%' :: a :: b :: rest => do
    let high ← hexDigit? a
    let low ← hexDigit? b
    let bytes ← percentBytes? fuel rest
    some (UInt8.ofNat (16 * high + low) :: bytes)
  | _, '%' :: _ => none
  | fuel + 1, d :: rest => (percentBytes? fuel rest).map ((String.singleton d).toUTF8.toList ++ ·)

/-- The rest of a tag. -/
def tagText? (c : Cursor) (verbatim : Bool) : Option (String × Cursor) :=
  let taken := c.rest.takeWhile (isTagChar verbatim)
  (percentBytes? (taken.length + 1) taken).bind fun bytes =>
    (String.fromUTF8? ⟨bytes.toArray⟩).map fun text => (text, c.skip taken.length)

/-- The handle of a tag: names between exclamation marks, or the first mark
alone. -/
def tagHandle? (c : Cursor) : Option (String × Cursor) :=
  if c.sees 0 (· == '!') then
    let name := (c.skip 1).rest.takeWhile isNameChar
    let after := c.skip (1 + name.length)
    if after.sees 0 (· == '!') then
      some (String.ofList ('!' :: name ++ ['!']), after.skip 1)
    else some (String.ofList ('!' :: name), after)
  else none

/-- A directive. -/
def directive? (c : Cursor) : Option (Token × Cursor) := do
  let (name, c) ← some? (c.skip 1) isNameChar
  if !c.endsAt 0 then none
  else
    let c := c.skipWhile isSpacing
    if name = "YAML" then
      let (major, c) ← versionNumber? c
      if !c.sees 0 (· == '.') then none
      else
        let (minor, c) ← versionNumber? (c.skip 1)
        let c ← endOfLine? c
        some (.versionDirective major minor, c)
    else if name = "TAG" then
      let (handle, c) ← tagHandle? c
      if handle ≠ "!" && !handle.endsWith "!" then none
      else if !c.sees 0 isSpacing then none
      else
        let (lead, c) ← tagText? (c.skipWhile isSpacing) true
        if lead.isEmpty || !c.endsAt 0 then none
        else
          let c ← endOfLine? c
          some (.tagDirective handle lead, c)
    else none

/-- A tag on a node: in angle brackets, or a handle with a suffix. -/
def tag? (c : Cursor) (inFlow : Bool) : Option (Token × Cursor) := do
  let (token, c) ←
    if c.sees 1 (· == '<') then do
      let (text, c) ← tagText? (c.skip 2) true
      if text.isEmpty || !c.sees 0 (· == '>') then none else some (Token.tag "" text, c.skip 1)
    else do
      let (handle, c) ← tagHandle? c
      if handle.length ≥ 2 && handle.endsWith "!" then
        let (text, c) ← tagText? c false
        if text.isEmpty then none else some (Token.tag handle text, c)
      else
        let (text, c) ← tagText? c false
        let suffix := String.ofList (handle.toList.drop 1) ++ text
        some (if suffix.isEmpty then Token.tag "" "!" else Token.tag "!" suffix, c)
  if (inFlow && c.sees 0 (· == ',')) || c.endsAt 0 then some (token, c) else none

/-! ## Tokens -/

/-- The name of an anchor or alias. -/
def anchorName? (c : Cursor) : Option (String × Cursor) :=
  (some? (c.skip 1) isNameChar).bind fun (name, c) =>
    if c.endsAt 0 || c.sees 0 ['?', ':', ',', ']', '\x7d', '%', '@', '\x60'].contains then
      some (name, c)
    else none

/-- Close every block before a directive, a document marker or the end. -/
def leaveDocument? (s : Scanner) : Option Scanner :=
  ((s.closeBlocks 0).dropKey?).map fun s => s.allowKey false

/-- A token of `n` characters that may be a key or part of one. -/
def pushNode? (s : Scanner) (token : Token) (next : Cursor) : Option Scanner :=
  (s.saveKey?).map fun s => ((s.push token).moveTo next).allowKey false

/-- The start of a flow collection. -/
def openFlow? (s : Scanner) (token : Token) : Option Scanner :=
  (s.saveKey?).map fun s =>
    { (s.push token).moveTo (s.cursor.skip 1) with
      key := none
      outerKeys := s.key :: s.outerKeys
      keyAllowed := true }

/-- The end of a flow collection. -/
def closeFlow? (s : Scanner) (token : Token) : Option Scanner :=
  (s.dropKey?).map fun s =>
    let closed := match s.outerKeys with
      | key :: outerKeys => { s with key, outerKeys }
      | [] => s
    ((closed.push token).moveTo (s.cursor.skip 1)).allowKey false

/-- A comma in a flow collection. -/
def flowEntry? (s : Scanner) : Option Scanner :=
  (s.dropKey?).map fun s => ((s.push .flowEntry).moveTo (s.cursor.skip 1)).allowKey true

/-- A dash in front of an item. -/
def blockEntry? (s : Scanner) : Option Scanner :=
  if !s.inFlow && !s.keyAllowed then none
  else
    let opened := s.openBlock s.cursor.column none .blockSequenceStart
    (opened.dropKey?).map fun s =>
      ((s.push .blockEntry).moveTo (s.cursor.skip 1)).allowKey true

/-- A question mark in front of a key. -/
def explicitKey? (s : Scanner) : Option Scanner :=
  if !s.inFlow && !s.keyAllowed then none
  else
    let opened := s.openBlock s.cursor.column none .blockMappingStart
    (opened.dropKey?).map fun s =>
      ((s.push .key).moveTo (s.cursor.skip 1)).allowKey (!s.inFlow)

/-- A colon in front of a value: what was scanned since a possible key began is
the key. -/
def valueMark? (s : Scanner) : Option Scanner :=
  let finish := fun (s : Scanner) => (s.push .value).moveTo (s.cursor.skip 1)
  match s.key with
  | some k =>
    let keyed := s.insertAt k.place .key
    let opened := keyed.openBlock k.column (some k.place) .blockMappingStart
    some (finish { opened with key := none, keyAllowed := false })
  | none =>
    if !s.inFlow && !s.keyAllowed then none
    else
      let opened := s.openBlock s.cursor.column none .blockMappingStart
      some (finish (opened.allowKey (!s.inFlow)))

/-- Characters that begin no plain scalar. -/
def isIndicator (d : Char) : Bool := "-?:,[]\x7b\x7d#&*!|>'\"%@\x60".toList.contains d

/-- Whether a plain scalar begins here. -/
def startsPlain (s : Scanner) : Bool :=
  let c := s.cursor
  match c.peek 0 with
  | none => false
  | some d =>
    (!c.endsAt 0 && !isIndicator d) || (d == '-' && !c.sees 1 isSpacing)
      || (!s.inFlow && (d == '?' || d == ':') && !c.endsAt 1)

/-- Scan one token; the cursor stands at its first character. -/
def token? (s : Scanner) (first : Char) : Option Scanner :=
  let c := s.cursor
  if c.column == 0 && first == '%' then do
    let s ← s.leaveDocument?
    let (token, next) ← directive? c
    some ((s.push token).moveTo next)
  else if c.atMarker then do
    let s ← s.leaveDocument?
    some ((s.push (if first == '-' then .documentStart else .documentEnd)).moveTo (c.skip 3))
  else if first == '[' then s.openFlow? .flowSequenceStart
  else if first == '\x7b' then s.openFlow? .flowMappingStart
  else if first == ']' then s.closeFlow? .flowSequenceEnd
  else if first == '\x7d' then s.closeFlow? .flowMappingEnd
  else if first == ',' then s.flowEntry?
  else if first == '-' && c.endsAt 1 then s.blockEntry?
  else if first == '?' && (s.inFlow || c.endsAt 1) then s.explicitKey?
  else if first == ':' && (s.inFlow || c.endsAt 1) then s.valueMark?
  else if first == '*' then do
    let (name, next) ← anchorName? c
    s.pushNode? (.alias name) next
  else if first == '&' then do
    let (name, next) ← anchorName? c
    s.pushNode? (.anchor name) next
  else if first == '!' then do
    let (token, next) ← tag? c s.inFlow
    s.pushNode? token next
  else if (first == '|' || first == '>') && !s.inFlow then do
    let s ← s.dropKey?
    let (text, next) ← c.block? (first == '|') s.nestedColumn
    some (((s.push (.scalar text false)).moveTo next).allowKey true)
  else if first == '\'' || first == '"' then do
    let (text, next) ← c.quoted? (first == '\'')
    s.pushNode? (.scalar text false) next
  else if s.startsPlain then do
    let (text, next, crossed) ← c.plain? s.inFlow s.nestedColumn
    let s ← s.pushNode? (.scalar text true) next
    some (s.allowKey crossed)
  else none

/-- Scan to the end of the text. -/
def run? : Nat → Scanner → Option Scanner
  | 0, _ => none
  | fuel + 1, s => do
    let s := skipBlanks (s.cursor.rest.length + 1) s
    let s ← s.refreshKeys?
    let s := s.closeBlocks (s.cursor.column + 1)
    match s.cursor.rest with
    | [] => s.leaveDocument?
    | first :: _ => (s.token? first).bind (run? fuel)

end Scanner

/-- The tokens of a text. -/
def Token.ofText? (text : String) : Option (List Token) :=
  if !text.toList.all isPrintable then none
  else
    let cs := text.toList
    (Scanner.run? (cs.length + 1) (.start cs)).map fun s => s.tokens.reverse

end ViewSchema.Yaml
