import ViewSchema.Diff.Hunk
import ViewSchema.Diff.Snapshot

/-!
# Comparing schemas

Two schemas compared section by section. Sections are matched by key; sections
of one schema alone are added or removed, and those whose lines differ are
compared line by line.
-/

namespace ViewSchema

/-- A difference between two schemas. -/
inductive SectionChange where
  | added (snapshot : Snapshot)
  | removed (snapshot : Snapshot)
  /-- Unified hunks of the lines, and how many lines were added and removed. -/
  | changed (key hunks : String) (added removed : Nat)
deriving DecidableEq, Repr

/-- Counts over a comparison. -/
structure DiffStats where
  sectionsAdded : Nat
  sectionsRemoved : Nat
  sectionsChanged : Nat
  linesAdded : Nat
  linesRemoved : Nat
deriving DecidableEq, Repr

namespace DiffStats

def zero : DiffStats := ⟨0, 0, 0, 0, 0⟩

def isEmpty (s : DiffStats) : Bool :=
  s.sectionsAdded + s.sectionsRemoved + s.sectionsChanged == 0

/-- Count one change. -/
def count (s : DiffStats) : SectionChange → DiffStats
  | .added snapshot =>
    { s with
      sectionsAdded := s.sectionsAdded + 1
      linesAdded := s.linesAdded + snapshot.lines.length }
  | .removed snapshot =>
    { s with
      sectionsRemoved := s.sectionsRemoved + 1
      linesRemoved := s.linesRemoved + snapshot.lines.length }
  | .changed _ _ added removed =>
    { s with
      sectionsChanged := s.sectionsChanged + 1
      linesAdded := s.linesAdded + added
      linesRemoved := s.linesRemoved + removed }

/-- The counts in one line. -/
def text (s : DiffStats) : String :=
  toString s.sectionsAdded ++ " added, " ++ toString s.sectionsRemoved ++ " removed, "
    ++ toString s.sectionsChanged ++ " changed sections (" ++ toString s.linesAdded
    ++ " lines +, " ++ toString s.linesRemoved ++ " lines -)"

end DiffStats

namespace SectionChange

def key : SectionChange → String
  | added s => s.key
  | removed s => s.key
  | changed key _ _ _ => key

/-- A change as a block of a report. -/
def text : SectionChange → String
  | added s => "added section " ++ s.key ++ "\n" ++ String.join (s.lines.map ("+" ++ · ++ "\n"))
  | removed s =>
    "removed section " ++ s.key ++ "\n" ++ String.join (s.lines.map ("-" ++ · ++ "\n"))
  | changed key hunks _ _ => "changed section " ++ key ++ "\n" ++ hunks

end SectionChange

/-- The changes between two schemas. -/
structure SchemaDiff where
  changes : List SectionChange
deriving DecidableEq, Repr

namespace SchemaDiff

/-- Compare the lines of one section. -/
def compare? (context : Nat) (old new : Snapshot) : Option SectionChange :=
  if old.lines = new.lines then none
  else
    let before := Hunk.linesOf old.text
    let after := Hunk.linesOf new.text
    let edits := EditScript.ofLines before after
    let changes := edits.flatMap (Hunk.changesOf before after)
    some (.changed old.key (Hunk.renderAll context before after edits)
      (changes.filter Hunk.LineChange.isInsert).length
      (changes.filter Hunk.LineChange.isDelete).length)

/-- The last snapshot with a key. -/
def find? (snapshots : List Snapshot) (key : String) : Option Snapshot :=
  snapshots.reverse.find? fun s => s.key == key

/-- Compare two lists of snapshots: removed and changed sections in the old
order, then added ones in the new order. -/
def ofSnapshots (context : Nat) (before after : List Snapshot) : SchemaDiff :=
  let kept := before.filterMap fun old =>
    match find? after old.key with
    | none => some (.removed old)
    | some new => compare? context old new
  let added := after.filter fun new => !before.any fun old => old.key == new.key
  ⟨kept ++ added.map .added⟩

/-- Compare two schemas with `context` unchanged lines around changes. -/
def ofSchemas (context : Nat) (old new : Json) : SchemaDiff :=
  ofSnapshots context (Snapshot.ofSchema old) (Snapshot.ofSchema new)

def isEmpty (d : SchemaDiff) : Bool := d.changes.isEmpty

def stats (d : SchemaDiff) : DiffStats := d.changes.foldl DiffStats.count .zero

/-- A report under the labels of the two schemas. -/
def report (d : SchemaDiff) (oldLabel newLabel : String) : String :=
  "--- " ++ oldLabel ++ "\n+++ " ++ newLabel ++ "\n"
    ++ String.join (d.changes.map SectionChange.text)

end SchemaDiff

end ViewSchema
