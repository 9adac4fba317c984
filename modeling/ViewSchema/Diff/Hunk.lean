import ViewSchema.Diff.EditScript

/-!
# Hunks

Edit scripts in unified form: changed lines with a number of unchanged lines
around them, each group under a header with its line numbers.
-/

namespace ViewSchema

namespace Hunk

/-- The lines of a text with their line ends: a line feed, a carriage return, or
both together. -/
def linesFrom (pending : List Char) : List Char → List String
  | [] => if pending.isEmpty then [] else [String.ofList pending.reverse]
  | '\r' :: '\n' :: rest => String.ofList ('\n' :: '\r' :: pending).reverse :: linesFrom [] rest
  | c :: rest =>
    if c = '\n' ∨ c = '\r' then String.ofList (c :: pending).reverse :: linesFrom [] rest
    else linesFrom (c :: pending) rest

def linesOf (text : String) : List String := linesFrom [] text.toList

/-- Keep only the last `context` lines of an equal run at the beginning. -/
def trimFirst (context : Nat) : List Edit → List Edit
  | .equal old new length :: rest =>
    let cut := length - context
    .equal (old + cut) (new + cut) (length - cut) :: rest
  | edits => edits

/-- Keep only the first `context` lines of an equal run at the end. -/
def trimLast (context : Nat) (edits : List Edit) : List Edit :=
  match edits.getLast? with
  | some (.equal old new length) =>
    edits.dropLast ++ [.equal old new (length - (length - context))]
  | _ => edits

/-- Divide edits at equal runs of more than twice the context. -/
def divide (context : Nat) (group : List Edit) : List Edit → List (List Edit)
  | [] =>
    match group with
    | [] => []
    | [.equal _ _ _] => []
    | edits => [edits]
  | .equal old new length :: rest =>
    if 2 * context < length then
      let cut := length - context
      (group ++ [.equal old new context])
        :: divide context [.equal (old + cut) (new + cut) (length - cut)] rest
    else divide context (group ++ [.equal old new length]) rest
  | edit :: rest => divide context (group ++ [edit]) rest

/-- The groups of a script, with `context` unchanged lines around changes. -/
def groups (context : Nat) (edits : List Edit) : List (List Edit) :=
  if edits.isEmpty then [] else divide context [] (trimLast context (trimFirst context edits))

/-- A changed or unchanged line. -/
inductive LineChange where
  | equal (line : String)
  | delete (line : String)
  | insert (line : String)
deriving DecidableEq, Repr

/-- A stretch of lines. -/
def slice (lines : List String) (s : Span) : List String := (lines.drop s.start).take s.length

/-- The lines that an edit touches. -/
def changesOf (old new : List String) (edit : Edit) : List LineChange :=
  match edit with
  | .equal _ _ _ => (slice old edit.oldSpan).map .equal
  | _ => (slice old edit.oldSpan).map .delete ++ (slice new edit.newSpan).map .insert

def LineChange.text : LineChange → String
  | equal line => " " ++ line
  | delete line => "-" ++ line
  | insert line => "+" ++ line

def LineChange.isInsert : LineChange → Bool
  | insert _ => true
  | _ => false

def LineChange.isDelete : LineChange → Bool
  | delete _ => true
  | _ => false

/-- Line numbers of a stretch: the first one, and the count unless it is one. An
empty stretch is numbered by the line before it. -/
def rangeText (start stop : Nat) : String :=
  let count := stop - start
  if count = 1 then toString (start + 1)
  else if count = 0 then toString start ++ ",0"
  else toString (start + 1) ++ "," ++ toString count

/-- The header of a group. -/
def header (group : List Edit) : String :=
  match group.head?, group.getLast? with
  | some first, some last =>
    "@@ -" ++ rangeText first.oldSpan.start last.oldSpan.stop
      ++ " +" ++ rangeText first.newSpan.start last.newSpan.stop ++ " @@\n"
  | _, _ => ""

/-- A group in unified form; without lines it is empty. -/
def render (old new : List String) (group : List Edit) : String :=
  let changes := group.flatMap (changesOf old new)
  if changes.isEmpty then "" else header group ++ String.join (changes.map LineChange.text)

/-- The difference of two sequences of lines in unified form. -/
def renderAll (context : Nat) (old new : List String) (edits : List Edit) : String :=
  String.join ((groups context edits).map (render old new))

end Hunk

end ViewSchema
