import ViewSchema.Text.Split

/-!
# Blank characters

The characters that separate words, and the operations on text that depend on
them: trimming and splitting into words.
-/

namespace ViewSchema

/-- The White_Space property of Unicode. -/
def isBlank (c : Char) : Bool :=
  let n := c.toNat
  (9 ≤ n && n ≤ 13) || n == 0x20 || n == 0x85 || n == 0xA0 || n == 0x1680
    || (0x2000 ≤ n && n ≤ 0x200A) || n == 0x2028 || n == 0x2029 || n == 0x202F
    || n == 0x205F || n == 0x3000

/-- The words of a text: its maximal runs of characters that are not blank. -/
def wordsOf (text : String) : List String :=
  (nonemptyPieces isBlank text.toList).map String.ofList

/-- A text without the blanks at its two ends. -/
def trimBlanks (text : String) : String := trimBack isBlank (trimFront isBlank text)

/-- A text that has no other character than blanks. -/
def isAllBlank (text : String) : Bool := text.toList.all isBlank

end ViewSchema
