import ViewSchema.Text.Case
import ViewSchema.Text.Split
import ViewSchema.Url.Punycode

/-!
# Domain names

International domain names and the ASCII form in which a URL holds them: letters
in lower case, labels with other characters in Punycode behind a mark, and none
of the characters that have a meaning in a URL.

This is UTS #46 for names in their usual spelling only. Left out are its
compatibility mapping, but for full-width ASCII, the normalisation to NFC, and
the checks of labels: which code points are unassigned or disallowed, the rules
for joiners and for text from right to left, and the limits on lengths.
-/

namespace ViewSchema

namespace Domain

/-- Printable ASCII characters that no domain name may hold. -/
def forbidden : List Char :=
  [' ', '%', '#', '/', ':', '<', '>', '?', '@', '[', '\\', ']', '^', '|']

/-- Characters that leave no trace in a domain name. -/
def isIgnored (c : Char) : Bool :=
  let n := c.toNat
  n == 0xAD || n == 0x34F || (0x180B ≤ n && n ≤ 0x180D) || n == 0x180F || n == 0x200B
    || n == 0x2060 || n == 0x2064 || (0xFE00 ≤ n && n ≤ 0xFE0F) || n == 0xFEFF
    || (0xE0100 ≤ n && n ≤ 0xE01EF)

/-- Characters beyond ASCII that separate labels as a full stop does. -/
def isStop (c : Char) : Bool := c.toNat == 0x3002 || c.toNat == 0xFF0E || c.toNat == 0xFF61

/-- Spaces, controls, code points for private use and those that are no
characters: none of them may stand in a domain name. -/
def isRefused (c : Char) : Bool :=
  let n := c.toNat
  (0x7F ≤ n && n ≤ 0xA0) || n == 0x1680 || (0x2000 ≤ n && n ≤ 0x200F)
    || (0x2028 ≤ n && n ≤ 0x202F) || (0x205F ≤ n && n ≤ 0x206F) || n == 0x3000
    || (0xE000 ≤ n && n ≤ 0xF8FF) || (0xFDD0 ≤ n && n ≤ 0xFDEF) || (0xFFF9 ≤ n && n ≤ 0xFFFF)
    || 0xE0000 ≤ n || n % 0x10000 ≥ 0xFFFE

/-- What stands in a domain name for a character, if it may stand there. Of the
mapping of UTS #46 this is the folding of case and of full-width ASCII, and what
is ignored; a ligature, say, stays as it is, which it does not there. -/
def form? (c : Char) : Option (List Char) :=
  let n := c.toNat
  if n < 0x7F then
    if n < 0x20 || forbidden.contains c then none else some [c.toLower]
  else if isIgnored c then some []
  else if isStop c then some ['.']
  else if isRefused c then none
  else if 0xFF01 ≤ n && n ≤ 0xFF5E then
    let ascii := Char.ofNat (n - 0xFEE0)
    if forbidden.contains ascii then none else some [ascii.toLower]
  else some [smallForm c]

/-- The mark of a label in Punycode. -/
def punycodeMark : List Char := ['x', 'n', '-', '-']

/-- Whether a label holds characters beyond ASCII. -/
def isInternational (label : List Char) : Bool := label.any fun c => 0x7F ≤ c.toNat

/-- The ASCII form of a label. A label that has the mark already must stand for
an international one in its proper form. -/
def labelToAscii? (label : List Char) : Option (List Char) :=
  if punycodeMark.isPrefixOf label then
    match Punycode.decode? (label.drop punycodeMark.length) with
    | none => none
    | some decoded =>
      if isInternational decoded && decoded.all (fun c => form? c == some [c]) then some label
      else none
  else if isInternational label then some (punycodeMark ++ Punycode.encode label)
  else some label

/-- The ASCII form of a domain name, without compatibility mapping,
normalisation, and checks of validity and of writing direction. -/
def toAscii? (name : String) : Option String := do
  let forms ← name.toList.mapM form?
  let labels ← (splitAtEach (· == '.') forms.flatten).mapM labelToAscii?
  some (String.intercalate "." (labels.map String.ofList))

end Domain

end ViewSchema
