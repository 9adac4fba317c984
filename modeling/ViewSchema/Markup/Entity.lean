/-!
# Character entities

The entities that markup text may hold, and the escaping that writes text into
markup. Escaping replaces the characters that markup gives a meaning; decoding
replaces six entities, one kind after the other.
-/

namespace ViewSchema

namespace Entity

/-- Replace every occurrence of a pattern that is not empty, from the front.
`skip` characters belong to an occurrence that has been replaced already. -/
def replaceFrom (pattern replacement : List Char) : Nat → List Char → List Char
  | _, [] => []
  | skip + 1, _ :: rest => replaceFrom pattern replacement skip rest
  | 0, c :: rest =>
    if pattern.isPrefixOf (c :: rest) then
      replacement ++ replaceFrom pattern replacement (pattern.length - 1) rest
    else c :: replaceFrom pattern replacement 0 rest

/-- Replace every occurrence of a pattern that is not empty. -/
def replaceAll (pattern replacement cs : List Char) : List Char :=
  replaceFrom pattern replacement 0 cs

/-- The entities with the characters they stand for, in the order in which they
are decoded. The ampersand comes last, so that nothing is decoded twice. -/
def table : List (List Char × Char) :=
  [("&lt;".toList, '<'), ("&gt;".toList, '>'), ("&quot;".toList, '"'),
    ("&#39;".toList, '\''), ("&nbsp;".toList, Char.ofNat 0xA0), ("&amp;".toList, '&')]

/-- Decode the entities of a text. -/
def decodeChars (cs : List Char) : List Char :=
  table.foldl (fun acc entry => replaceAll entry.1 [entry.2] acc) cs

def decode (text : String) : String := String.ofList (decodeChars text.toList)

/-- A character of text as markup. -/
def escapeTextChar (c : Char) : List Char :=
  if c = '&' then "&amp;".toList
  else if c = '<' then "&lt;".toList
  else if c = '>' then "&gt;".toList
  else [c]

/-- A character of an attribute value as markup. -/
def escapeAttributeChar (c : Char) : List Char :=
  if c = '"' then "&quot;".toList else escapeTextChar c

/-- Text as markup. -/
def escapeText (text : String) : String := String.ofList (text.toList.flatMap escapeTextChar)

/-- A text as the value of a quoted attribute. -/
def escapeAttribute (text : String) : String :=
  String.ofList (text.toList.flatMap escapeAttributeChar)

end Entity

end ViewSchema
