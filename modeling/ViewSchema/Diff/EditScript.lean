/-!
# Edit scripts

The difference of two sequences as a list of edits. Edits are found by searching
from both ends for the middle of a shortest path through the grid of matches,
then insertions and deletions are moved together and merged.

Main definitions:

- `EditScript.shortest` finds a shortest list of edits.
- `EditScript.compact` slides insertions up and down to join neighbouring edits.
- `EditScript.ofLines` does both and joins neighbouring deletions and insertions
  into replacements.
-/

namespace ViewSchema

/-- A half-open range of positions. -/
structure Span where
  start : Nat
  stop : Nat
deriving DecidableEq, Repr

namespace Span

def length (s : Span) : Nat := s.stop - s.start

def isEmpty (s : Span) : Bool := s.stop ≤ s.start

end Span

/-- One edit, with positions in the old and the new sequence. -/
inductive Edit where
  | equal (old new length : Nat)
  | delete (old length new : Nat)
  | insert (old new length : Nat)
  | replace (old oldLength new newLength : Nat)
deriving DecidableEq, Repr

namespace Edit

/-- The positions that an edit covers in the old sequence. -/
def oldSpan : Edit → Span
  | equal old _ length => ⟨old, old + length⟩
  | delete old length _ => ⟨old, old + length⟩
  | insert old _ _ => ⟨old, old⟩
  | replace old length _ _ => ⟨old, old + length⟩

/-- The positions that an edit covers in the new sequence. -/
def newSpan : Edit → Span
  | equal _ new length => ⟨new, new + length⟩
  | delete _ _ new => ⟨new, new⟩
  | insert _ new length => ⟨new, new + length⟩
  | replace _ _ new length => ⟨new, new + length⟩

def isEmpty (e : Edit) : Bool := e.oldSpan.isEmpty && e.newSpan.isEmpty

/-- Move an edit by a number of positions to the front. -/
def moveBack (n : Nat) : Edit → Edit
  | equal old new length => equal (old - n) (new - n) length
  | delete old length new => delete (old - n) length (new - n)
  | insert old new length => insert (old - n) (new - n) length
  | replace old length new newLength => replace (old - n) length (new - n) newLength

/-- Move an edit by a number of positions to the end. -/
def moveOn (n : Nat) : Edit → Edit
  | equal old new length => equal (old + n) (new + n) length
  | delete old length new => delete (old + n) length (new + n)
  | insert old new length => insert (old + n) (new + n) length
  | replace old length new newLength => replace (old + n) length (new + n) newLength

/-- Lengthen an edit at its end. -/
def lengthen (n : Nat) : Edit → Edit
  | equal old new length => equal old new (length + n)
  | delete old length new => delete old (length + n) new
  | insert old new length => insert old new (length + n)
  | replace old length new newLength => replace old length new newLength

/-- Shorten an edit at its end. -/
def shorten (n : Nat) : Edit → Edit
  | equal old new length => equal old new (length - n)
  | delete old length new => delete old (length - n) new
  | insert old new length => insert old new (length - n)
  | replace old length new newLength => replace old length new newLength

end Edit

namespace EditScript

/-- Two sequences that are compared. -/
structure Pair where
  old : Array String
  new : Array String

/-- Whether an old and a new position hold the same entry. -/
def Pair.same (p : Pair) (i j : Nat) : Bool :=
  match p.old[i]?, p.new[j]? with
  | some a, some b => a == b
  | _, _ => false

/-- Equal entries from two positions on, at most `limit`. -/
def Pair.prefixFrom (p : Pair) (i j : Nat) : Nat → Nat
  | 0 => 0
  | limit + 1 => if p.same i j then p.prefixFrom (i + 1) (j + 1) limit + 1 else 0

/-- Equal entries before two positions, at most `limit`. -/
def Pair.suffixBefore (p : Pair) (i j : Nat) : Nat → Nat
  | 0 => 0
  | limit + 1 =>
    if 0 < i && 0 < j && p.same (i - 1) (j - 1) then p.suffixBefore (i - 1) (j - 1) limit + 1
    else 0

/-- The length of the common beginning of two spans. -/
def Pair.commonPrefix (p : Pair) (old new : Span) : Nat :=
  p.prefixFrom old.start new.start (min old.length new.length)

/-- The length of the common end of two spans. -/
def Pair.commonSuffix (p : Pair) (old new : Span) : Nat :=
  p.suffixBefore old.stop new.stop (min old.length new.length)

/-! ## Shortest scripts -/

/-- The furthest positions reached, by diagonal. -/
structure Frontier where
  offset : Int
  reached : Array Nat

namespace Frontier

/-- A frontier for diagonals up to a distance, at the start. -/
def start (limit : Nat) : Frontier :=
  { offset := limit + 1, reached := Array.replicate (2 * limit + 3) 0 }

def get (f : Frontier) (k : Int) : Nat := f.reached.getD (k + f.offset).toNat 0

def set (f : Frontier) (k : Int) (x : Nat) : Frontier :=
  { f with reached := f.reached.setIfInBounds (k + f.offset).toNat x }

/-- Where the next step on a diagonal begins. -/
def advance (f : Frontier) (d k : Int) : Nat :=
  if k = -d ∨ (k ≠ d ∧ f.get (k - 1) < f.get (k + 1)) then f.get (k + 1)
  else f.get (k - 1) + 1

end Frontier

/-- The search for the middle of a path between two spans. -/
structure Search where
  forward : Frontier
  backward : Frontier
  /-- Where the two frontiers meet, once they do. -/
  found : Option (Nat × Nat)

/-- The diagonals of a distance, from the highest. -/
def diagonals (d : Nat) : List Int :=
  (List.range (d + 1)).map fun (i : Nat) => (d : Int) - 2 * (i : Int)

/-- Advance the forward frontier on one diagonal. -/
def Search.stepForward (p : Pair) (old new : Span) (d : Nat) (s : Search) (k : Int) : Search :=
  if s.found.isSome then s
  else
    let delta : Int := (old.length : Int) - new.length
    let x0 := s.forward.advance d k
    let y0 := ((x0 : Int) - k).toNat
    let x :=
      if x0 < old.length ∧ y0 < new.length then
        x0 + p.commonPrefix ⟨old.start + x0, old.stop⟩ ⟨new.start + y0, new.stop⟩
      else x0
    let forward := s.forward.set k x
    let meets := delta % 2 ≠ 0 ∧ ((k - delta).natAbs : Int) ≤ (d : Int) - 1
      ∧ old.length ≤ x + s.backward.get (-(k - delta))
    { s with
      forward
      found := if meets then some (x0 + old.start, y0 + new.start) else none }

/-- Advance the backward frontier on one diagonal. -/
def Search.stepBackward (p : Pair) (old new : Span) (d : Nat) (s : Search) (k : Int) :
    Search :=
  if s.found.isSome then s
  else
    let delta : Int := (old.length : Int) - new.length
    let x0 := s.backward.advance d k
    let y0 := ((x0 : Int) - k).toNat
    let same :=
      if x0 < old.length ∧ y0 < new.length then
        p.commonSuffix ⟨old.start, old.stop - x0⟩ ⟨new.start, new.stop - y0⟩
      else 0
    let x := x0 + same
    let y := y0 + same
    let backward := s.backward.set k x
    let meets := delta % 2 = 0 ∧ (k - delta).natAbs ≤ d
      ∧ old.length ≤ x + s.forward.get (-(k - delta))
    { s with
      backward
      found :=
        if meets then some (old.length - x + old.start, new.length - y + new.start) else none }

/-- Search at growing distances from `d` on. -/
def Search.run (p : Pair) (old new : Span) : Nat → Nat → Search → Option (Nat × Nat)
  | 0, _, s => s.found
  | tries + 1, d, s =>
    let s := (diagonals d).foldl (Search.stepForward p old new d) s
    let s := (diagonals d).foldl (Search.stepBackward p old new d) s
    if s.found.isSome then s.found else Search.run p old new tries (d + 1) s

/-- Distances that are searched between spans of these lengths. -/
def maxDistance (n m : Nat) : Nat := (n + m + 1) / 2 + 1

/-- The middle of a shortest path between two spans that differ at both ends. -/
def middle? (p : Pair) (old new : Span) : Option (Nat × Nat) :=
  let limit := maxDistance old.length new.length
  Search.run p old new limit 0 ⟨Frontier.start limit, Frontier.start limit, none⟩

/-- A shortest list of edits between two spans: what they share at the ends is
kept, the rest is divided at the middle of a path. -/
def shortestBetween (p : Pair) : Nat → Span → Span → List Edit
  | 0, _, _ => []
  | fuel + 1, old, new =>
    let front := p.commonPrefix old new
    let head := if 0 < front then [Edit.equal old.start new.start front] else []
    let old := { old with start := old.start + front }
    let new := { new with start := new.start + front }
    let back := p.commonSuffix old new
    let old := { old with stop := old.stop - back }
    let new := { new with stop := new.stop - back }
    let tail := if 0 < back then [Edit.equal old.stop new.stop back] else []
    let inner :=
      if old.isEmpty && new.isEmpty then []
      else if new.isEmpty then [.delete old.start old.length new.start]
      else if old.isEmpty then [.insert old.start new.start new.length]
      else
        match middle? p old new with
        | some (i, j) =>
          shortestBetween p fuel ⟨old.start, i⟩ ⟨new.start, j⟩
            ++ shortestBetween p fuel ⟨i, old.stop⟩ ⟨j, new.stop⟩
        | none =>
          [.delete old.start old.length new.start, .insert old.start new.start new.length]
    head ++ inner ++ tail

/-- A shortest list of edits between two sequences. -/
def shortest (p : Pair) : List Edit :=
  shortestBetween p (p.old.size + p.new.size + 1) ⟨0, p.old.size⟩ ⟨0, p.new.size⟩

/-! ## Joining edits -/

/-- Edits with a place among them: those before it in reverse, and those from it
on. -/
structure Cursor where
  before : List Edit
  rest : List Edit

namespace Cursor

/-- Lengthen the common run after an insertion that moves up, or make one. -/
def giveBack (n : Nat) (previous moved : Edit) (after : List Edit) : List Edit :=
  match after with
  | .equal old new length :: others => .equal (old - n) (new - n) (length + n) :: others
  | others => .equal (previous.oldSpan.stop - n) (moved.newSpan.stop - n) n :: others

/-- Move the edit at the cursor up as far as it goes: an insertion slides over
an equal run that ends like it, different kinds change places, equal kinds
join. -/
def up (p : Pair) : Nat → Cursor → Cursor
  | 0, c => c
  | fuel + 1, c =>
    match c.before, c.rest with
    | previous :: before, this :: after =>
      match this, previous with
      | .insert old new length, .equal _ _ run =>
        let shared := p.commonSuffix previous.oldSpan this.newSpan
        if 0 < shared then
          let shrunk := previous.shorten shared
          let before := if shrunk.isEmpty then before else shrunk :: before
          up p fuel
            ⟨before, (Edit.insert old new length).moveBack shared
              :: giveBack shared previous this after⟩
        else if run = 0 then up p fuel ⟨before, this :: after⟩
        else c
      | .delete _ _ _, .equal _ _ run =>
        if run = 0 then up p fuel ⟨before, this :: after⟩ else c
      | .insert _ _ _, .delete _ _ _ => up p fuel ⟨before, this :: previous :: after⟩
      | .delete _ _ _, .insert _ _ _ => up p fuel ⟨before, this :: previous :: after⟩
      | .insert _ _ length, .insert _ _ _ =>
        up p fuel ⟨before, previous.lengthen length :: after⟩
      | .delete _ length _, .delete _ _ _ =>
        up p fuel ⟨before, previous.lengthen length :: after⟩
      | _, _ => c
    | _, _ => c

/-- Lengthen the common run before an insertion that moves down, or make one. -/
def takeOver (n : Nat) (next moved : Edit) (before : List Edit) : List Edit :=
  match before with
  | .equal old new length :: others => .equal old new (length + n) :: others
  | others => .equal next.oldSpan.start moved.newSpan.start n :: others

/-- Move the edit at the cursor down as far as it goes. -/
def down (p : Pair) : Nat → Cursor → Cursor
  | 0, c => c
  | fuel + 1, c =>
    match c.rest with
    | this :: next :: after =>
      match this, next with
      | .insert old new length, .equal _ _ run =>
        let shared := p.commonPrefix next.oldSpan this.newSpan
        if 0 < shared then
          let shrunk := (next.shorten shared).moveOn shared
          let after := if shrunk.isEmpty then after else shrunk :: after
          down p fuel
            ⟨takeOver shared next this c.before,
              (Edit.insert old new length).moveOn shared :: after⟩
        else if run = 0 then down p fuel ⟨c.before, this :: after⟩
        else c
      | .delete _ _ _, .equal _ _ run =>
        if run = 0 then down p fuel ⟨c.before, this :: after⟩ else c
      | .insert _ _ _, .delete _ _ _ => down p fuel ⟨next :: c.before, this :: after⟩
      | .delete _ _ _, .insert _ _ _ => down p fuel ⟨next :: c.before, this :: after⟩
      | .insert _ _ _, .insert _ _ length =>
        down p fuel ⟨c.before, this.lengthen length :: after⟩
      | .delete _ _ _, .delete _ length _ =>
        down p fuel ⟨c.before, this.lengthen length :: after⟩
      | _, _ => c
    | _ => c

end Cursor

/-- Move every edit of a kind up and then down. -/
def slide (p : Pair) (moves : Edit → Bool) (size : Nat) : Nat → Cursor → List Edit
  | 0, c => c.before.reverse ++ c.rest
  | fuel + 1, c =>
    match c.rest with
    | [] => c.before.reverse
    | this :: after =>
      if moves this then
        let moved := Cursor.down p size (Cursor.up p size c)
        match moved.rest with
        | [] => moved.before.reverse
        | this :: after => slide p moves size fuel ⟨this :: moved.before, after⟩
      else slide p moves size fuel ⟨this :: c.before, after⟩

def isDelete : Edit → Bool
  | .delete _ _ _ => true
  | _ => false

def isInsert : Edit → Bool
  | .insert _ _ _ => true
  | _ => false

/-- Join neighbouring edits: first deletions, then insertions are moved. -/
def compact (p : Pair) (edits : List Edit) : List Edit :=
  let size := 4 * (p.old.size + p.new.size + edits.length) + 4
  let deleted := slide p isDelete size size ⟨[], edits⟩
  slide p isInsert size size ⟨[], deleted⟩

/-- Deletions and insertions that wait to be joined. -/
structure Pending where
  deleted : Option (Nat × Nat × Nat)
  inserted : Option (Nat × Nat × Nat)
  kept : Option (Nat × Nat × Nat)

namespace Pending

def nothing : Pending := ⟨none, none, none⟩

/-- The edits for a waiting deletion and insertion. -/
def changes (w : Pending) : List Edit :=
  match w.deleted, w.inserted with
  | some (old, length, _), some (_, new, newLength) => [.replace old length new newLength]
  | some (old, length, new), none => [.delete old length new]
  | none, some (old, new, length) => [.insert old new length]
  | none, none => []

/-- The edit for a waiting equal run. -/
def equals (w : Pending) : List Edit :=
  match w.kept with
  | some (old, new, length) => [.equal old new length]
  | none => []

end Pending

/-- Join runs of the same kind, and a deletion with an insertion beside it into
a replacement. -/
def joinFrom (w : Pending) : List Edit → List Edit
  | [] => w.equals ++ w.changes
  | .equal old new length :: rest =>
    let kept := match w.kept with
      | some (o, n, l) => (o, n, l + length)
      | none => (old, new, length)
    w.changes ++ joinFrom ⟨none, none, some kept⟩ rest
  | .delete old length new :: rest =>
    let deleted := match w.deleted with
      | some (o, l, n) => (o, l + length, n)
      | none => (old, length, new)
    w.equals ++ joinFrom ⟨some deleted, w.inserted, none⟩ rest
  | .insert old new length :: rest =>
    let inserted := match w.inserted with
      | some (o, n, l) => (o, n, l + length)
      | none => (old, new, length)
    w.equals ++ joinFrom ⟨w.deleted, some inserted, none⟩ rest
  | .replace old length new newLength :: rest =>
    w.equals ++ .replace old length new newLength
      :: joinFrom ⟨w.deleted, w.inserted, none⟩ rest

/-- The edits between two sequences of lines. -/
def ofLines (old new : List String) : List Edit :=
  let p : Pair := ⟨old.toArray, new.toArray⟩
  joinFrom .nothing (compact p (shortest p))

end EditScript

end ViewSchema
