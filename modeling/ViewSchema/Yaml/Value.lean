import ViewSchema.Json.Value
import ViewSchema.Number.Decimal
import ViewSchema.Yaml.Tree

/-!
# YAML values

What the trees of YAML texts mean as JSON values. Plain scalars are read by their
spelling; everything else is text, unless a tag asks for a type. Keys of mappings
are always text. An alias means what its anchor means.

Main definitions:

- `Scalar.ofPlain` reads a plain scalar.
- `Json.ofYaml?` reads a text.
-/

namespace ViewSchema.Yaml

/-! ## Scalars -/

/-- What a scalar means. -/
inductive Scalar where
  | value (value : Json)
  /-- A number or a tag without a JSON value. -/
  | invalid
deriving Repr

namespace Scalar

def isNull (text : String) : Bool := ["null", "Null", "NULL", "~"].contains text

def bool? (text : String) : Option Bool :=
  if ["true", "True", "TRUE"].contains text then some true
  else if ["false", "False", "FALSE"].contains text then some false
  else none

/-- Bases with their marks. -/
def bases : List (List Char × Nat) := [(['0', 'x'], 16), (['0', 'o'], 8), (['0', 'b'], 2)]

/-- Digits after the mark of a base. -/
def marked? (cs : List Char) : Option (Nat × List Char) :=
  bases.findSome? fun (mark, base) =>
    if mark.isPrefixOf cs then some (base, cs.drop mark.length) else none

def isSign (c : Char) : Bool := c == '+' || c == '-'

/-- Several digits that begin with zero are no number. -/
def isZeroPadded (cs : List Char) : Bool :=
  let digits := match cs with
    | c :: rest => if isSign c then rest else cs
    | [] => []
  1 < digits.length && digits.head? == some '0' && digits.all Char.isDigit

/-- An integer without a minus sign. -/
def unsigned? (cs : List Char) : Option Nat :=
  let body := match cs with
    | '+' :: rest => rest
    | _ => cs
  match marked? body with
  | some (base, digits) => ofBaseDigits? base digits
  | none => if isZeroPadded cs then none else ofBaseDigits? 10 body

/-- An integer with a minus sign, as its magnitude. -/
def negative? (cs : List Char) : Option Nat :=
  match cs with
  | '-' :: body =>
    match marked? body with
    | some (base, digits) => ofBaseDigits? base digits
    | none => if isZeroPadded cs then none else ofBaseDigits? 10 body
  | _ => none

/-- An integer: JSON holds those of 64 bits, those of 128 bits are refused, and
larger ones are not read as integers. -/
def int? (text : String) : Option Scalar :=
  let cs := text.toList
  match unsigned? cs, negative? cs with
  | some n, _ =>
    if n < Nat.pow 2 64 then some (.value (.int n))
    else if n < Nat.pow 2 128 then some .invalid
    else none
  | none, some n =>
    if n ≤ Nat.pow 2 63 then some (.value (.int (-n)))
    else if n ≤ Nat.pow 2 127 then some .invalid
    else none
  | none, none => none

/-- A number with a fraction or exponent; those that are not finite have no JSON
value but null. -/
def double? (text : String) : Option Json :=
  let body := match text.toList with
    | '+' :: rest => if rest.head?.any isSign then none else some (String.ofList rest)
    | _ => some text
  body.bind fun body =>
    if [".inf", ".Inf", ".INF"].contains body then some .null
    else if ["-.inf", "-.Inf", "-.INF", ".nan", ".NaN", ".NAN"].contains text then some .null
    else
      match Double.read? body with
      | some (.finite d) => some (.number (.double d))
      | _ => none

/-- A plain scalar without a tag. -/
def ofPlain (text : String) : Scalar :=
  if text.isEmpty || isNull text then .value .null
  else
    match bool? text, int? text with
    | some b, _ => .value (.bool b)
    | none, some scalar => scalar
    | none, none =>
      if isZeroPadded text.toList then .value (.string text)
      else .value ((double? text).getD (.string text))

/-- The common beginning of the tags of the core types. -/
def coreTag : String := "tag:yaml.org,2002:"

/-- A scalar with a tag: the core types read their own spellings, tags of an
application have no JSON value, and the others mean text. -/
def ofTagged (tag text : String) : Scalar :=
  let read (value : Option Json) : Scalar := match value with
    | some v => .value v
    | none => .invalid
  if tag.startsWith "!" then .invalid
  else if tag = coreTag ++ "bool" then read ((bool? text).map .bool)
  else if tag = coreTag ++ "int" then (int? text).getD .invalid
  else if tag = coreTag ++ "float" then read (double? text)
  else if tag = coreTag ++ "null" then if isNull text then .value .null else .invalid
  else .value (.string text)

/-- A scalar of a tree. -/
def ofTree (tag : Option String) (text : String) (plain : Bool) : Scalar :=
  match tag with
  | some tag => ofTagged tag text
  | none => if plain then ofPlain text else .value (.string text)

def value? : Scalar → Option Json
  | value v => some v
  | invalid => none

end Scalar

/-! ## Trees -/

/-- What a tree means, where it is a key and where it is a value. -/
structure Meaning where
  /-- The text of a scalar, for keys. -/
  text : Option String
  value : Option Json
  /-- How many collections are nested in each other. -/
  height : Nat
  /-- How many aliases were followed. -/
  jumps : Nat
deriving Repr

/-- What is known while a tree is read. -/
structure Reading where
  /-- Meanings by anchor; a collection that is still open has none. -/
  anchors : List (String × Option Meaning)
  jumps : Nat
deriving Repr

namespace Reading

/-- Take note of an anchor. -/
def note (r : Reading) (anchor : Option String) (meaning : Option Meaning) : Reading :=
  match anchor with
  | some name => { r with anchors := Fields.set r.anchors name meaning }
  | none => r

end Reading

namespace Tree

mutual

/-- How many marks a tree consists of: one for each scalar and alias, two for
each collection. -/
def size : Tree → Nat
  | .alias _ => 1
  | .scalar _ _ _ => 1
  | .sequence _ items => 2 + sizeOfItems items
  | .mapping _ entries => 2 + sizeOfEntries entries

def sizeOfItems : List Tree → Nat
  | [] => 0
  | x :: xs => size x + sizeOfItems xs

def sizeOfEntries : List (Tree × Tree) → Nat
  | [] => 0
  | (k, v) :: rest => size k + size v + sizeOfEntries rest

end

/-- Collections with tags of an application have no JSON value. -/
def taggedByApplication (p : Properties) : Bool := p.tag.any (·.startsWith "!")

mutual

/-- The meaning of a tree. No more than `limit` aliases may be followed in all. -/
def meaning? (limit : Nat) (r : Reading) : Tree → Option (Meaning × Reading)
  | .alias name =>
    match r.anchors.lookup name with
    | some (some m) =>
      let jumps := r.jumps + 1 + m.jumps
      if limit < jumps then none else some ({ m with jumps := m.jumps + 1 }, { r with jumps })
    | _ => none
  | .scalar p text plain =>
    let m : Meaning := ⟨some text, (Scalar.ofTree p.tag text plain).value?, 0, 0⟩
    some (m, r.note p.anchor (some m))
  | .sequence p items =>
    if taggedByApplication p then none
    else
      (meaningOfItems? limit (r.note p.anchor none) items).map fun (values, height, after) =>
        let m : Meaning := ⟨none, some (.array values), height + 1, after.jumps - r.jumps⟩
        (m, after.note p.anchor (some m))
  | .mapping p entries =>
    if taggedByApplication p then none
    else
      (meaningOfEntries? limit (r.note p.anchor none) entries).map fun (fields, height, after) =>
        let m : Meaning :=
          ⟨none, some (.object (Fields.ofList fields)), height + 1, after.jumps - r.jumps⟩
        (m, after.note p.anchor (some m))

def meaningOfItems? (limit : Nat) (r : Reading) :
    List Tree → Option (List Json × Nat × Reading)
  | [] => some ([], 0, r)
  | x :: xs => do
    let (m, r) ← meaning? limit r x
    let value ← m.value
    let (values, height, r) ← meaningOfItems? limit r xs
    some (value :: values, max m.height height, r)

def meaningOfEntries? (limit : Nat) (r : Reading) :
    List (Tree × Tree) → Option (List (String × Json) × Nat × Reading)
  | [] => some ([], 0, r)
  | (k, v) :: rest => do
    let (key, r) ← meaning? limit r k
    let name ← key.text
    let (m, r) ← meaning? limit r v
    let value ← m.value
    let (fields, height, r) ← meaningOfEntries? limit r rest
    some ((name, value) :: fields, max m.height height, r)

end

/-- Collections may be nested this deep. -/
def maxHeight : Nat := 128

/-- For each mark of a document, this many aliases may be followed. -/
def jumpsPerMark : Nat := 100

/-- The JSON value of a tree. -/
def json? (tree : Tree) : Option Json :=
  (tree.meaning? (tree.size * jumpsPerMark) ⟨[], 0⟩).bind fun (m, _) =>
    if maxHeight < m.height then none else m.value

end Tree

end ViewSchema.Yaml

namespace ViewSchema

/-- The JSON value of a YAML text with at most one document; none means null. -/
def Json.ofYaml? (text : String) : Option Json :=
  match Yaml.Tree.ofText? text with
  | some (some tree) => tree.json?
  | some none => some .null
  | none => none

end ViewSchema
