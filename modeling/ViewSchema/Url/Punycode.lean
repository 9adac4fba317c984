/-!
# Punycode

Code points written with the letters, digits and hyphens of host names: the
ASCII characters first, then the places and values of the others, as distances
in a mixed-radix notation whose thresholds adapt to what was written before.
-/

namespace ViewSchema

namespace Punycode

/-- The first code point that is not written as itself. -/
def firstCode : Nat := 128

/-- The bias before anything is written. -/
def initialBias : Nat := 72

/-- The digit threshold at a position. -/
def threshold (position bias : Nat) : Nat :=
  if position ≤ bias then 1 else if bias + 26 ≤ position then 26 else position - bias

theorem one_le_threshold (position bias : Nat) : 1 ≤ threshold position bias := by
  unfold threshold
  split
  · omega
  · split <;> omega

/-- Halve the skew of a distance until it is small. -/
def scaleBias (k delta : Nat) : Nat :=
  if h : 455 < delta then scaleBias (k + 36) (delta / 35)
  else k + 36 * delta / (delta + 38)
termination_by delta
decreasing_by omega

/-- The bias after a distance was written, with `count` characters placed. -/
def adapt (delta count : Nat) (first : Bool) : Nat :=
  let halved := if first then delta / 700 else delta / 2
  scaleBias 0 (halved + halved / count)

/-- A digit: letters first, then the decimal ones. -/
def digit (n : Nat) : Char :=
  if n < 26 then Char.ofNat ('a'.toNat + n) else Char.ofNat ('0'.toNat + (n - 26))

/-- The value of a digit. -/
def digitValue? (c : Char) : Option Nat :=
  if 'a' ≤ c ∧ c ≤ 'z' then some (c.toNat - 'a'.toNat)
  else if 'A' ≤ c ∧ c ≤ 'Z' then some (c.toNat - 'A'.toNat)
  else if c.isDigit then some (c.toNat - '0'.toNat + 26)
  else none

/-- The digits of a distance, least significant first. -/
def digitsOf (bias position n : Nat) : List Char :=
  let t := threshold position bias
  if h : n < t then [digit n]
  else digit (t + (n - t) % (36 - t)) :: digitsOf bias (position + 36) ((n - t) / (36 - t))
termination_by n
decreasing_by
  have ht := one_le_threshold position bias
  have hle := Nat.div_le_self (n - threshold position bias) (36 - threshold position bias)
  have : ¬n < threshold position bias := h
  exact Nat.lt_of_le_of_lt hle (by omega)

/-- What has been written so far: how many characters are placed, the distance
to the next one, and the bias. -/
structure Progress where
  placed : Nat
  delta : Nat
  bias : Nat
  text : List Char

/-- Go over the characters once to place every occurrence of `code`. -/
def place (basic code : Nat) : List Nat → Progress → Progress
  | [], s => s
  | n :: rest, s =>
    place basic code rest <|
      if n < code then { s with delta := s.delta + 1 }
      else if n = code then
        { placed := s.placed + 1
          delta := 0
          bias := adapt s.delta (s.placed + 1) (s.placed == basic)
          text := s.text ++ digitsOf s.bias 36 s.delta }
      else s

/-- Place the codes of an ascending list, starting at `reached`. -/
def placeAll (basic : Nat) (codes : List Nat) : Nat → List Nat → Progress → Progress
  | _, [], s => s
  | reached, code :: others, s =>
    let s := place basic code codes { s with delta := s.delta + (code - reached) * (s.placed + 1) }
    placeAll basic codes (code + 1) others { s with delta := s.delta + 1 }

/-- A label in Punycode. -/
def encode (label : List Char) : List Char :=
  let codes := label.map Char.toNat
  let basic := label.filter fun c => c.toNat < firstCode
  let others := (codes.filter (firstCode ≤ ·)).eraseDups.mergeSort
  let front := if basic.isEmpty then [] else basic ++ ['-']
  (placeAll basic.length codes firstCode others ⟨basic.length, 0, initialBias, front⟩).text

/-- What has been read so far: the characters, where and with which code the last
one was placed, and the distance that is being read. -/
structure Reading where
  chars : List Char
  code : Nat
  index : Nat
  bias : Nat
  delta : Nat
  weight : Nat
  position : Nat

/-- The largest value that a distance may reach. -/
def largest : Nat := Nat.pow 2 32 - 1

namespace Reading

/-- Nothing but the characters that are written as themselves. -/
def start (basic : List Char) : Reading := ⟨basic, firstCode, 0, initialBias, 0, 1, 36⟩

/-- Read one more digit of a distance; the last one places a character. -/
def next? (s : Reading) (value : Nat) : Option Reading :=
  let delta := s.delta + value * s.weight
  let t := threshold s.position s.bias
  if largest < delta then none
  else if t ≤ value then
    some { s with delta, weight := s.weight * (36 - t), position := s.position + 36 }
  else
    let size := s.chars.length + 1
    let code := s.code + (s.index + delta) / size
    let index := (s.index + delta) % size
    if code.isValidChar then
      some
        { chars := s.chars.take index ++ Char.ofNat code :: s.chars.drop index
          code
          index := index + 1
          bias := adapt delta size (s.index == 0)
          delta := 0
          weight := 1
          position := 36 }
    else none

end Reading

/-- The label that a text in Punycode stands for. -/
def decode? (text : List Char) : Option (List Char) := do
  let digits := (text.reverse.takeWhile (· != '-')).reverse
  let basic := text.take (text.length - digits.length - 1)
  let values ← digits.mapM digitValue?
  let reading ← values.foldlM Reading.next? (Reading.start basic)
  if reading.weight = 1 then some reading.chars else none

end Punycode

end ViewSchema
