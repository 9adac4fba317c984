import ViewSchema.Json.Text
import ViewSchema.Outline
import ViewSchema.Text.Split

/-!
# Snapshots

One snapshot per section of a schema: a key made of the names leading to it, and
one line for each of its own fields and of the texts that belong to it directly.
Sections nested inside get snapshots of their own.
-/

namespace ViewSchema

/-- The own lines of one section. -/
structure Snapshot where
  key : String
  lines : List String
deriving DecidableEq, Repr

namespace Snapshot

/-- The line of a field. -/
def fieldLine (field : String × Json) : String := field.1 ++ ": " ++ field.2.text

/-- Lines of the fields that hold no nested schema. -/
def ownLines (fields : List (String × Json)) : List String :=
  (fields.filter fun field => !Outline.nestedFields.contains field.1).map fieldLine

/-- The line of a text leaf inside a section: its path below the section, and
the text. -/
def textLine (sectionPath path : String) (value : Json) : String :=
  let below := (afterFront? sectionPath path).getD path
  let text := match value with
    | .string s => s
    | other => other.text
  trimFront (· == '/') below ++ " = " ++ text

/-- Lines of the texts that belong to a section directly. -/
def textLines (sectionPath : String) (inside : List Outline) : List String :=
  inside.filterMap fun
    | .text path value => some (textLine sectionPath path value)
    | .section _ _ _ _ => none

/-- How often each chain of names has been seen. -/
abbrev Seen := List (String × Nat)

/-- The key of a chain of names: it is numbered from its second occurrence
on. -/
def numbered (chain : String) (count : Nat) : String :=
  if count = 1 then chain else chain ++ " #" ++ toString count

/-- The chain of names of a section below another one. -/
def chainOf (parent : Option String) (name : String) : String :=
  match parent with
  | some key => key ++ " > " ++ name
  | none => name

mutual

/-- The snapshots of an outline below a section, outer sections first. -/
def collect (parent : Option String) (seen : Seen) : Outline → Seen × List Snapshot
  | .text _ _ => (seen, [])
  | .section path name fields inside =>
    let chain := chainOf parent name
    let count := (seen.lookup chain).getD 0 + 1
    let key := numbered chain count
    let (seen, nested) := collectAll (some key) (Fields.set seen chain count) inside
    (seen, ⟨key, ownLines fields ++ textLines path inside⟩ :: nested)

def collectAll (parent : Option String) (seen : Seen) : List Outline → Seen × List Snapshot
  | [] => (seen, [])
  | o :: os =>
    let (seen, first) := collect parent seen o
    let (seen, others) := collectAll parent seen os
    (seen, first ++ others)

end

/-- The snapshots of a schema, in compile order. -/
def ofSchema (schema : Json) : List Snapshot :=
  (collectAll none [] (Outline.ofSchema schema)).2

/-- The lines as one text. -/
def text (s : Snapshot) : String := String.join (s.lines.map (· ++ "\n"))

end Snapshot

end ViewSchema
