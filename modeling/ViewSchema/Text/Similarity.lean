/-!
# Similarity of names

The Jaro-Winkler measure, used to suggest a known name for a misspelt one.
Characters match when they are equal and not too far apart; matches out of order
count half, and a shared beginning raises the score.
-/

namespace ViewSchema

namespace Similarity

/-- Mark the first unmarked place in a window that holds a character. -/
def mark? (c : Char) (first last : Nat) (marks : List (Char × Bool)) :
    Option (List (Char × Bool)) :=
  let place? := marks.zipIdx.find? fun ((d, marked), j) =>
    first ≤ j && j < last && c == d && !marked
  place?.map fun (_, j) => List.set marks j (c, true)

/-- The matched characters of two texts, each in its own order. -/
def matched (a b : List Char) : List Char × List Char :=
  let range := max a.length b.length / 2 - 1
  let (kept, marks) := a.zipIdx.foldl
    (fun (acc : List Char × List (Char × Bool)) (c, i) =>
      match mark? c (i - range) (i + range + 1) acc.2 with
      | some marks => (acc.1 ++ [c], marks)
      | none => acc)
    ([], b.map fun c => (c, false))
  (kept, (marks.filter fun entry => entry.2).map Prod.fst)

/-- The share of matching characters, between zero and one. -/
def jaro (a b : List Char) : Float :=
  if a.isEmpty && b.isEmpty then 1
  else
    let (left, right) := matched a b
    let count := left.length
    if count = 0 then 0
    else
      let swapped := ((left.zip right).filter fun (c, d) => c != d).length / 2
      let n := count.toFloat
      (n / a.length.toFloat + n / b.length.toFloat + (count - swapped).toFloat / n) / 3

/-- Scores above this one are raised by a shared beginning. -/
def boostAbove : Float := 0.7

/-- The length of the shared beginning, of at most four characters. -/
def sharedFront (a b : List Char) : Nat :=
  (((a.take 4).zip b).takeWhile fun (c, d) => c == d).length

/-- The score of two names. -/
def score (a b : String) : Float :=
  let base := jaro a.toList b.toList
  if boostAbove < base then
    base + 0.1 * (sharedFront a.toList b.toList).toFloat * (1 - base)
  else base

end Similarity

end ViewSchema
