import ViewSchema.Config.Setting
import ViewSchema.Date.Calendar
import ViewSchema.Number.Decimal

/-!
# TOML

A reader of TOML texts. A text is a list of statements; a second pass puts their
values into tables and refuses statements that define something twice.

Main definitions:

- `Toml.Statement` and `Toml.statements?`.
- `Toml.Item` is a table under construction; `Toml.build?` puts statements
  together.
- `Setting.ofToml?` does both.
-/

namespace ViewSchema.Toml

/-! ## Blanks and line ends -/

def isBlank (c : Char) : Bool := c == ' ' || c == '\t'

def skipBlanks (cs : List Char) : List Char := cs.dropWhile isBlank

/-- After a line end, if there is one. -/
def newline? : List Char → Option (List Char)
  | '\n' :: rest => some rest
  | '\r' :: '\n' :: rest => some rest
  | _ => none

/-- Characters of comments. -/
def isCommentChar (c : Char) : Bool := c == '\t' || 0x20 ≤ c.toNat

/-- After a comment, if there is one. -/
def skipComment : List Char → List Char
  | '#' :: rest => rest.dropWhile isCommentChar
  | cs => cs

/-- After blanks, a comment and the end of the line or of the text. -/
def endOfLine? (cs : List Char) : Option (List Char) :=
  match skipComment (skipBlanks cs) with
  | [] => some []
  | rest => newline? rest

/-- After blanks, comments and line ends. -/
def skipLines : Nat → List Char → List Char
  | 0, cs => cs
  | fuel + 1, cs =>
    let cs := skipComment (skipBlanks cs)
    match newline? cs with
    | some rest => skipLines fuel rest
    | none => cs

/-! ## Strings -/

/-- Characters of a string between quotes of a kind, apart from escapes. -/
def isStringChar (quote : Char) (c : Char) : Bool :=
  c == '\t' || (0x20 ≤ c.toNat && c != '\x7f' && c != quote)

/-- The character with a hexadecimal code of a fixed number of digits. -/
def codePoint? (count : Nat) (cs : List Char) : Option (Char × List Char) :=
  if cs.length < count then none
  else (ofBaseDigits? 16 (cs.take count)).bind fun code =>
    if h : code.isValidChar then some (Char.ofNatAux code h, cs.drop count) else none

/-- An escape, after its backslash. -/
def escape? : List Char → Option (Char × List Char)
  | 'b' :: rest => some ('\x08', rest)
  | 't' :: rest => some ('\t', rest)
  | 'n' :: rest => some ('\n', rest)
  | 'f' :: rest => some ('\x0c', rest)
  | 'r' :: rest => some ('\r', rest)
  | '"' :: rest => some ('"', rest)
  | '\\' :: rest => some ('\\', rest)
  | 'u' :: rest => codePoint? 4 rest
  | 'U' :: rest => codePoint? 8 rest
  | _ => none

/-- The rest of a string on one line; a literal one knows no escapes. -/
def lineString? (quote : Char) : Nat → List Char → List Char → Option (String × List Char)
  | 0, _, _ => none
  | _, _, [] => none
  | fuel + 1, read, c :: rest =>
    if c = quote then some (String.ofList read.reverse, rest)
    else if c = '\\' && quote == '"' then do
      let (e, rest) ← escape? rest
      lineString? quote fuel (e :: read) rest
    else if isStringChar quote c then lineString? quote fuel (c :: read) rest
    else none

/-- After an escaped line end: everything up to the next character that is not
blank. -/
def escapedNewline? (cs : List Char) : Option (List Char) :=
  (newline? (skipBlanks cs)).map fun rest =>
    let step := fun cs => cs.dropWhile fun c => isBlank c || c == '\n'
    let rec go : Nat → List Char → List Char
      | 0, cs => cs
      | fuel + 1, cs =>
        match step cs with
        | '\r' :: '\n' :: rest => go fuel rest
        | cs => cs
    go rest.length rest

/-- The rest of a string on several lines. Up to two quotes may stand right
before the closing ones. -/
def blockString? (quote : Char) : Nat → List Char → List Char → Option (String × List Char)
  | 0, _, _ => none
  | _, _, [] => none
  | fuel + 1, read, c :: rest =>
    if c = quote then
      let run := ((c :: rest).takeWhile (· == quote)).length
      if run < 3 then
        blockString? quote fuel (List.replicate run quote ++ read) ((c :: rest).drop run)
      else
        let kept := min (run - 3) 2
        some (String.ofList (read.reverse ++ List.replicate kept quote),
          (c :: rest).drop (kept + 3))
    else if c = '\\' && quote == '"' then
      match escapedNewline? rest with
      | some rest => blockString? quote fuel read rest
      | none => do
        let (e, rest) ← escape? rest
        blockString? quote fuel (e :: read) rest
    else
      match newline? (c :: rest) with
      | some rest => blockString? quote fuel ('\n' :: read) rest
      | none =>
        if isStringChar quote c then blockString? quote fuel (c :: read) rest else none

/-- A string from its opening quote. -/
def string? (cs : List Char) : Option (String × List Char) :=
  match cs with
  | q :: rest =>
    if q ≠ '"' ∧ q ≠ '\'' then none
    else if (cs.take 3).all (· == q) && cs.length ≥ 3 then
      let body := cs.drop 3
      blockString? q (cs.length + 1) [] ((newline? body).getD body)
    else lineString? q (cs.length + 1) [] rest
  | [] => none

/-! ## Keys -/

def isKeyChar (c : Char) : Bool := c.isAlphanum || c == '_' || c == '-'

/-- One part of a key. -/
def keyPart? (cs : List Char) : Option (String × List Char) :=
  match cs with
  | q :: rest =>
    if q = '"' ∨ q = '\'' then lineString? q (cs.length + 1) [] rest
    else
      let name := cs.takeWhile isKeyChar
      if name.isEmpty then none else some (String.ofList name, cs.drop name.length)
  | [] => none

/-- Parts between points. -/
def keyParts? : Nat → List Char → Option (List String × List Char)
  | 0, _ => none
  | fuel + 1, cs => do
    let (part, rest) ← keyPart? (skipBlanks cs)
    match skipBlanks rest with
    | '.' :: rest =>
      let (parts, rest) ← keyParts? fuel rest
      some (part :: parts, rest)
    | rest => some ([part], rest)

/-- Keys have fewer parts than this, and values are nested less deeply. -/
def nestingLimit : Nat := 80

def key? (cs : List Char) : Option (List String × List Char) :=
  (keyParts? (cs.length + 1) cs).bind fun (parts, rest) =>
    if parts.length < nestingLimit then some (parts, rest) else none

/-! ## Numbers and dates -/

/-- Digits of a base with single underscores between them. -/
def digits (isDigit : Char → Bool) (cs : List Char) : List Char × List Char :=
  match cs with
  | c :: rest =>
    if isDigit c then
      let (more, rest) := following rest
      (c :: more, rest)
    else ([], cs)
  | [] => ([], [])
where
  /-- Digits after the first one. -/
  following : List Char → List Char × List Char
    | '_' :: c :: rest =>
      if isDigit c then
        let (more, rest) := following rest
        (c :: more, rest)
      else ([], '_' :: c :: rest)
    | c :: rest =>
      if isDigit c then
        let (more, rest) := following rest
        (c :: more, rest)
      else ([], c :: rest)
    | [] => ([], [])

/-- The largest integer. -/
def maxInteger : Nat := Nat.pow 2 63 - 1

/-- An integer of a base with a mark. -/
def basedInteger? (base : Nat) (isDigit : Char → Bool) (cs : List Char) :
    Option (Setting × List Char) :=
  let (ds, rest) := digits isDigit cs
  (ofBaseDigits? base ds).bind fun n =>
    if n ≤ maxInteger then some (.scalar (.int n), rest) else none

def isHexDigit (c : Char) : Bool := (hexDigit? c).isSome

/-- The exponent after its letter. -/
def exponent? (cs : List Char) : Option (Int × List Char) :=
  let (negative, body) := match cs with
    | '-' :: rest => (true, rest)
    | '+' :: rest => (false, rest)
    | rest => (false, rest)
  let (ds, rest) := digits Char.isDigit body
  if ds.isEmpty then none
  else some (if negative then -(ofDigits ds : Int) else ofDigits ds, rest)

/-- A decimal that is no integer. Only positive ones must be finite. -/
def float? (negative : Bool) (whole fraction : List Char) (exponent : Int) : Option Setting :=
  let scale := exponent - fraction.length
  match Double.ofDecimal negative (ofDigits (whole ++ fraction)) scale with
  | .finite d => some (.scalar (.number (.double d)))
  | .infinite true => some .notFinite
  | _ => none

/-- A decimal number after its sign. -/
def decimal? (negative : Bool) (cs : List Char) : Option (Setting × List Char) :=
  let (whole, rest) := digits Char.isDigit cs
  if whole.isEmpty then none
  else if 1 < whole.length && whole.head? == some '0' then none
  else
    match rest with
    | '.' :: rest => do
      let (fraction, rest) := digits Char.isDigit rest
      if fraction.isEmpty then none
      else
        match rest with
        | 'e' :: rest | 'E' :: rest => do
          let (e, rest) ← exponent? rest
          (float? negative whole fraction e).map (·, rest)
        | rest => (float? negative whole fraction 0).map (·, rest)
    | 'e' :: rest | 'E' :: rest => do
      let (e, rest) ← exponent? rest
      (float? negative whole [] e).map (·, rest)
    | rest =>
      let n := ofDigits whole
      if negative then if n ≤ maxInteger + 1 then some (.scalar (.int (-n)), rest) else none
      else if n ≤ maxInteger then some (.scalar (.int n), rest)
      else none

/-- The names of numbers that are not finite. -/
def named? (cs : List Char) : Option (Setting × List Char) :=
  if cs.take 3 = ['i', 'n', 'f'] ∨ cs.take 3 = ['n', 'a', 'n'] then
    some (.notFinite, cs.drop 3)
  else none

def number? (cs : List Char) : Option (Setting × List Char) :=
  match cs with
  | '0' :: 'x' :: rest => basedInteger? 16 isHexDigit rest
  | '0' :: 'o' :: rest => basedInteger? 8 (fun c => '0' ≤ c && c ≤ '7') rest
  | '0' :: 'b' :: rest => basedInteger? 2 (fun c => c == '0' || c == '1') rest
  | '+' :: rest => (decimal? false rest).or (named? rest)
  | '-' :: rest => (decimal? true rest).or (named? rest)
  | cs => (decimal? false cs).or (named? cs)

/-- A fixed number of digits. -/
def fixedDigits? (count : Nat) (cs : List Char) : Option (Nat × List Char) :=
  let ds := cs.take count
  if ds.length = count && ds.all Char.isDigit then some (ofDigits ds, cs.drop count) else none

/-- A fixed number of digits in a range. -/
def ranged? (count low high : Nat) (cs : List Char) : Option (Nat × List Char) :=
  (fixedDigits? count cs).bind fun (n, rest) =>
    if low ≤ n ∧ n ≤ high then some (n, rest) else none

/-- After one expected character. -/
def after? (c : Char) : List Char → Option (List Char)
  | d :: rest => if d = c then some rest else none
  | [] => none

/-- A number with leading zeros. -/
def padded (width n : Nat) : String :=
  let ds := Nat.toDigits 10 n
  String.ofList (List.replicate (width - ds.length) '0' ++ ds)

/-- A date, in the form in which it is written. -/
def date? (cs : List Char) : Option (String × List Char) := do
  let (year, rest) ← fixedDigits? 4 cs
  let (month, rest) ← (after? '-' rest).bind (ranged? 2 1 12)
  let (day, rest) ← (after? '-' rest).bind (ranged? 2 1 31)
  if Calendar.daysInMonth year month < day then none
  else some (padded 4 year ++ "-" ++ padded 2 month ++ "-" ++ padded 2 day, rest)

/-- A fraction of a second: nine digits count, and zeros at the end do not. -/
def secondFraction (cs : List Char) : String × List Char :=
  match cs with
  | '.' :: rest =>
    let ds := rest.takeWhile Char.isDigit
    if ds.isEmpty then ("", cs)
    else
      let kept := ((ds.take 9).reverse.dropWhile (· == '0')).reverse
      ((if kept.isEmpty then "" else "." ++ String.ofList kept), rest.drop ds.length)
  | cs => ("", cs)

/-- A time of day. -/
def time? (cs : List Char) : Option (String × List Char) := do
  let (hour, rest) ← ranged? 2 0 23 cs
  let (minute, rest) ← (after? ':' rest).bind (ranged? 2 0 59)
  let (second, rest) ← (after? ':' rest).bind (ranged? 2 0 60)
  let (fraction, rest) := secondFraction rest
  some (padded 2 hour ++ ":" ++ padded 2 minute ++ ":" ++ padded 2 second ++ fraction, rest)

/-- The offset of a time zone, if there is one. -/
def offset (cs : List Char) : Option (String × List Char) :=
  match cs with
  | 'Z' :: rest | 'z' :: rest => some ("Z", rest)
  | sign :: rest =>
    if sign = '+' ∨ sign = '-' then do
      let (hour, rest) ← ranged? 2 0 23 rest
      let (minute, rest) ← (after? ':' rest).bind (ranged? 2 0 59)
      let shown := if hour + minute = 0 then '+' else sign
      some (String.singleton shown ++ padded 2 hour ++ ":" ++ padded 2 minute, rest)
    else some ("", cs)
  | [] => some ("", cs)

/-- The name under which a date or time stands in a table of its own. -/
def dateField : String := "$__toml_private_datetime"

/-- A date, a time, or both. -/
def dateTime? (cs : List Char) : Option (Setting × List Char) :=
  let setting (text : String) (rest : List Char) : Setting × List Char :=
    (.table [(dateField, .scalar (.string text))], rest)
  match date? cs with
  | some (date, rest) =>
    let timed : Option (String × List Char) := match rest with
      | 'T' :: rest | 't' :: rest | ' ' :: rest => time? rest
      | _ => none
    match timed with
    | some (time, rest) => (offset rest).map fun (zone, rest) =>
      setting (date ++ "T" ++ time ++ zone) rest
    | none => some (setting date rest)
  | none => (time? cs).map fun (time, rest) => setting time rest

/-! ## Tables under construction -/

/-- How a table came about. -/
inductive TableKind where
  /-- By a header of its own. -/
  | header
  /-- As part of the path of another header. -/
  | implied
  /-- As part of a key. -/
  | dotted
deriving DecidableEq, Repr

inductive Item where
  | value (setting : Setting)
  | table (kind : TableKind) (fields : List (String × Item))
  /-- Tables under the same header. -/
  | tables (elements : List (List (String × Item)))
deriving Repr

mutual

/-- A finished item. -/
def Item.setting : Item → Setting
  | .value s => s
  | .table _ fields => .table (fieldSettings fields)
  | .tables elements => .list (elementSettings elements)

def fieldSettings : List (String × Item) → List (String × Setting)
  | [] => []
  | (name, item) :: rest => (name, item.setting) :: fieldSettings rest

def elementSettings : List (List (String × Item)) → List Setting
  | [] => []
  | fields :: rest => .table (fieldSettings fields) :: elementSettings rest

end

/-- Put a value under a key into a table of a kind. Only tables that keys made may
be entered by the points of a key; the last one of several parts must be one. -/
def setKey? (kind : TableKind) (nested : Bool) (fields : List (String × Item))
    (path : List String) (name : String) (value : Setting) : Option (List (String × Item)) :=
  match path with
  | [] =>
    if nested && kind != .dotted then none
    else if (fields.lookup name).isSome then none
    else some (fields ++ [(name, .value value)])
  | part :: path =>
    match fields.lookup part with
    | none =>
      (setKey? .dotted true [] path name value).map fun inner =>
        fields ++ [(part, .table .dotted inner)]
    | some (.table .header _) => none
    | some (.table kind inner) =>
      (setKey? kind true inner path name value).map fun inner =>
        Fields.set fields part (.table kind inner)
    | some (.tables elements) =>
      match elements.getLast? with
      | some last =>
        (setKey? .header true last path name value).map fun last =>
          Fields.set fields part (.tables (elements.dropLast ++ [last]))
      | none => none
    | some (.value _) => none

/-! ## Values -/

mutual

/-- A value. `depth` more levels of nesting are allowed. -/
def value? : Nat → Nat → List Char → Option (Setting × List Char)
  | 0, _, _ => none
  | fuel + 1, depth, cs =>
    match cs with
    | '"' :: _ | '\'' :: _ => (string? cs).map fun (s, rest) => (.scalar (.string s), rest)
    | '[' :: rest =>
      match depth with
      | 0 => none
      | depth + 1 => (items? fuel depth rest).map fun (xs, rest) => (.list xs, rest)
    | '\x7b' :: rest =>
      match depth with
      | 0 => none
      | depth + 1 =>
        match skipBlanks rest with
        | '\x7d' :: rest => some (.table [], rest)
        | rest => (pairs? fuel depth [] rest).map fun (fields, rest) =>
          (.table (fieldSettings fields), rest)
    | 't' :: 'r' :: 'u' :: 'e' :: rest => some (.scalar (.bool true), rest)
    | 'f' :: 'a' :: 'l' :: 's' :: 'e' :: rest => some (.scalar (.bool false), rest)
    | cs => (dateTime? cs).or (number? cs)

/-- The items of an array, to its end. -/
def items? : Nat → Nat → List Char → Option (List Setting × List Char)
  | 0, _, _ => none
  | fuel + 1, depth, cs =>
    match skipLines (cs.length + 1) cs with
    | ']' :: rest => some ([], rest)
    | cs => do
      let (x, rest) ← value? fuel depth cs
      match skipLines (rest.length + 1) rest with
      | ',' :: rest =>
        let (xs, rest) ← items? fuel depth rest
        some (x :: xs, rest)
      | ']' :: rest => some ([x], rest)
      | _ => none

/-- The pairs of an inline table, to its end. -/
def pairs? :
    Nat → Nat → List (String × Item) → List Char → Option (List (String × Item) × List Char)
  | 0, _, _, _ => none
  | fuel + 1, depth, fields, cs => do
    let (path, rest) ← key? cs
    let rest ← after? '=' rest
    let (x, rest) ← value? fuel depth (skipBlanks rest)
    let name ← path.getLast?
    let fields ← setKey? .header false fields path.dropLast name x
    match skipBlanks rest with
    | ',' :: rest => pairs? fuel depth fields rest
    | '\x7d' :: rest => some (fields, rest)
    | _ => none

end

/-! ## Statements -/

inductive Statement where
  | pair (path : List String) (value : Setting)
  | header (path : List String)
  | arrayHeader (path : List String)
deriving Repr

/-- One statement. -/
def statement? (cs : List Char) : Option (Statement × List Char) :=
  match cs with
  | '[' :: '[' :: rest => do
    let (path, rest) ← key? rest
    let rest ← (after? ']' rest).bind (after? ']')
    some (.arrayHeader path, rest)
  | '[' :: rest => do
    let (path, rest) ← key? rest
    let rest ← after? ']' rest
    some (.header path, rest)
  | cs => do
    let (path, rest) ← key? cs
    let rest ← after? '=' rest
    let (value, rest) ← value? (2 * cs.length + 2) (nestingLimit - 1) (skipBlanks rest)
    some (.pair path value, rest)

/-- All statements, each on lines of its own. -/
def statements? : Nat → List Char → Option (List Statement)
  | 0, _ => none
  | fuel + 1, cs =>
    match skipLines (cs.length + 1) cs with
    | [] => some []
    | cs => do
      let (s, rest) ← statement? cs
      let rest ← endOfLine? rest
      let others ← statements? fuel rest
      some (s :: others)

/-! ## Putting tables together -/

/-- Change the fields at the path of a header; tables on the way come into being,
and of several tables the last one is meant. -/
def atPath? (change : List (String × Item) → Option (List (String × Item)))
    (fields : List (String × Item)) (path : List String) : Option (List (String × Item)) :=
  match path with
  | [] => change fields
  | part :: path =>
    match fields.lookup part with
    | none => (atPath? change [] path).map fun inner =>
      fields ++ [(part, .table .implied inner)]
    | some (.table kind inner) => (atPath? change inner path).map fun inner =>
      Fields.set fields part (.table kind inner)
    | some (.tables elements) =>
      match elements.getLast? with
      | some last => (atPath? change last path).map fun last =>
        Fields.set fields part (.tables (elements.dropLast ++ [last]))
      | none => none
    | some (.value _) => none

/-- The pairs in front of the next header, put into a table. -/
def fill? (fields : List (String × Item)) :
    List Statement → Option (List (String × Item) × List Statement)
  | .pair path value :: rest =>
    match path.getLast? with
    | some name => (setKey? .header false fields path.dropLast name value).bind fun fields =>
      fill? fields rest
    | none => none
  | rest => some (fields, rest)

/-- Put a table with a header into its parent. A table that was only implied may
be defined once; it goes to the end of its parent then. -/
def define? (name : String) (statements : List Statement) (parent : List (String × Item)) :
    Option (List (String × Item)) :=
  let others := parent.filter fun field => field.1 != name
  let start := match parent.lookup name with
    | none => some []
    | some (.table .implied fields) => some fields
    | some _ => none
  start.bind fun fields =>
    (fill? fields statements).map fun (fields, _) => others ++ [(name, .table .header fields)]

/-- Put another table into an array of tables. -/
def append? (name : String) (statements : List Statement) (parent : List (String × Item)) :
    Option (List (String × Item)) :=
  let before := match parent.lookup name with
    | none => some []
    | some (.tables elements) => some elements
    | some _ => none
  before.bind fun elements =>
    (fill? [] statements).map fun (fields, _) =>
      Fields.set parent name (.tables (elements ++ [fields]))

/-- Put statements into the root table. -/
def build? (root : List (String × Item)) : List Statement → Option (List (String × Item))
  | [] => some root
  | .pair _ _ :: rest => build? root rest
  | .header path :: rest =>
    match path.getLast? with
    | some name => (atPath? (define? name rest) root path.dropLast).bind fun root =>
      build? root rest
    | none => none
  | .arrayHeader path :: rest =>
    match path.getLast? with
    | some name => (atPath? (append? name rest) root path.dropLast).bind fun root =>
      build? root rest
    | none => none

/-- The table that a text describes. A byte order mark at its beginning does not
count. -/
def parse? (text : String) : Option (List (String × Setting)) := do
  let cs := match text.toList with
    | '\ufeff' :: rest => rest
    | cs => cs
  let statements ← statements? (cs.length + 1) cs
  let (root, _) ← fill? [] statements
  let root ← build? root statements
  some (fieldSettings root)

end ViewSchema.Toml

namespace ViewSchema

/-- The table that a TOML text describes. -/
def Setting.ofToml? (text : String) : Option Setting := (Toml.parse? text).map .table

end ViewSchema
