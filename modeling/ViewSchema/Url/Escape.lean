import ViewSchema.Number.Decimal

/-!
# Escapes in URLs

A character that a part of a URL cannot hold is written as the bytes of its
UTF-8 form, each of them a percent sign and two hexadecimal digits. Every part
has its own class of such characters. Form fields are the strictest, and write
a space as a plus sign.
-/

namespace ViewSchema

/-- The parts of a URL that differ in what they escape. -/
inductive UrlPart where
  | plain
  | fragment
  | query
  | specialQuery
  | path
  | userinfo
deriving DecidableEq

namespace UrlPart

/-- Control characters, and everything beyond ASCII. -/
def isUnprintable (c : Char) : Bool := c.toNat < 0x20 || 0x7E < c.toNat

/-- The printable characters that a part escapes. -/
def reserved : UrlPart → List Char
  | plain => []
  | fragment => [' ', '"', '<', '>', '\x60']
  | query => [' ', '"', '#', '<', '>']
  | specialQuery => [' ', '"', '#', '<', '>', '\'']
  | path => [' ', '"', '<', '>', '\x60', '#', '?', '\x7b', '\x7d']
  | userinfo =>
    [' ', '"', '<', '>', '\x60', '#', '?', '\x7b', '\x7d', '/', ':', ';', '=', '@', '[', '\\',
     ']', '^', '|']

/-- Whether a part escapes a character. -/
def escapes (part : UrlPart) (c : Char) : Bool := isUnprintable c || part.reserved.contains c

end UrlPart

namespace UrlEscape

/-- An upper-case hexadecimal digit. -/
def hexDigit (n : Nat) : Char := (Nat.digitChar n).toUpper

/-- The escape of a byte. -/
def ofByte (byte : UInt8) : List Char :=
  ['%', hexDigit (byte.toNat / 16), hexDigit (byte.toNat % 16)]

/-- The escapes of the bytes of a character. -/
def ofChar (c : Char) : List Char := (String.utf8EncodeChar c).flatMap ofByte

/-- A text as it stands in a part of a URL. -/
def escape (part : UrlPart) (cs : List Char) : String :=
  String.ofList (cs.flatMap fun c => if part.escapes c then ofChar c else [c])

/-- The bytes of a text with its escapes undone. A percent sign that no two
hexadecimal digits follow stands for itself. -/
def unescape : List Char → List UInt8
  | [] => []
  | '%' :: high :: low :: rest =>
    match hexDigit? high, hexDigit? low with
    | some x, some y => UInt8.ofNat (16 * x + y) :: unescape rest
    | _, _ => UInt8.ofNat 0x25 :: unescape (high :: low :: rest)
  | c :: rest => String.utf8EncodeChar c ++ unescape rest

/-- The characters that form fields leave alone. -/
def isFormPlain (c : Char) : Bool := c.isAlphanum || c == '*' || c == '-' || c == '.' || c == '_'

/-- A text as a form field. -/
def formField (text : String) : String :=
  String.ofList (text.toList.flatMap fun c =>
    if c = ' ' then ['+'] else if isFormPlain c then [c] else ofChar c)

/-- A name and its value as form fields. -/
def formPair (pair : String × String) : String := formField pair.1 ++ "=" ++ formField pair.2

end UrlEscape

end ViewSchema
