import ViewSchema.Json.Value

/-!
# Breakpoints

Sizes, orientations, and the ordered table that names ranges of widths.

Thresholds are expected in ascending order; the table neither sorts nor checks
them. The name for a width is that of the last entry whose threshold does not
exceed it.
-/

namespace ViewSchema

/-- A size in pixels. -/
structure Size where
  width : Nat
  height : Nat
deriving DecidableEq, Repr

inductive Orientation where
  | landscape
  | portrait
deriving DecidableEq, Repr

namespace Orientation

/-- Landscape when the width is at least the height. -/
def ofSize (size : Size) : Orientation :=
  if size.height ≤ size.width then landscape else portrait

def name : Orientation → String
  | landscape => "landscape"
  | portrait => "portrait"

end Orientation

/-- Names with the least width each one stands for. -/
structure BreakpointTable where
  entries : List (String × Nat)
deriving DecidableEq, Repr

namespace BreakpointTable

/-- The table used where none is given. -/
def standard : BreakpointTable :=
  ⟨[("xs", 0), ("sm", 576), ("md", 768), ("lg", 992), ("xl", 1200), ("xxl", 1400)]⟩

instance : Inhabited BreakpointTable := ⟨standard⟩

/-- Thresholds are cut off at this width. -/
def maxThreshold : Nat := Nat.pow 2 32 - 1

/-- Read a table from an object of thresholds. Entries that are not natural
numbers are skipped; other values give no table. -/
def ofJson? (value : Json) : Option BreakpointTable :=
  value.object?.map fun fields =>
    ⟨fields.filterMap fun field => field.2.nat?.map fun w => (field.1, min w maxThreshold)⟩

def isEmpty (table : BreakpointTable) : Bool := table.entries.isEmpty

def names (table : BreakpointTable) : List String := table.entries.map Prod.fst

def contains (table : BreakpointTable) (name : String) : Bool := table.names.contains name

/-- The name of the last entry whose threshold does not exceed the width. -/
def resolve? (table : BreakpointTable) (width : Nat) : Option String :=
  ((table.entries.filter fun entry => entry.2 ≤ width).getLast?).map Prod.fst

/-- The name for a width; widths below every threshold get the first name. -/
def resolveOrFirst? (table : BreakpointTable) (width : Nat) : Option String :=
  (table.resolve? width).or (table.entries.head?.map Prod.fst)

/-- The threshold of a name. -/
def threshold? (table : BreakpointTable) (name : String) : Option Nat :=
  table.entries.lookup name

/-- The names up to a given one, in table order; none when it is unknown. -/
def upTo (table : BreakpointTable) (name : String) : List String :=
  match table.names.findIdx? (· == name) with
  | some i => table.names.take (i + 1)
  | none => []

end BreakpointTable

end ViewSchema
