import ViewSchema.Number.Decimal
import ViewSchema.Url.Domain
import ViewSchema.Url.Escape

/-!
# Hosts

The host of a URL: a domain name, or an address of either version of the
internet protocol. Where a scheme has a meaning of its own, a host that ends in
a number is an address and must be a proper one; other schemes take any text
without reserved characters.
-/

namespace ViewSchema

/-- Why a URL cannot be read. -/
inductive UrlError where
  | emptyHost
  | badDomain
  | badPort
  | badIpv4
  | badIpv6
  | badHostCharacter
  | relativeWithoutBase
  | relativeWithFlatBase
deriving DecidableEq, Inhabited

/-- The text of an error. -/
def UrlError.message : UrlError → String
  | emptyHost => "empty host"
  | badDomain => "invalid international domain name"
  | badPort => "invalid port number"
  | badIpv4 => "invalid IPv4 address"
  | badIpv6 => "invalid IPv6 address"
  | badHostCharacter => "invalid domain character"
  | relativeWithoutBase => "relative URL without a base"
  | relativeWithFlatBase => "relative URL with a cannot-be-a-base base"

/-- A host. The empty domain stands for a host that is left out. -/
inductive Host where
  | domain (name : String)
  | ipv4 (address : Nat)
  | ipv6 (pieces : List Nat)
deriving DecidableEq, Inhabited

namespace Host

/-- The host that is left out. -/
def empty : Host := .domain ""

/-! ## Addresses of four bytes -/

/-- A part of an address that may be decimal, octal behind a `0`, or hexadecimal
behind `0x`. -/
def ipv4Part? (part : List Char) : Option Nat :=
  match part with
  | '0' :: 'x' :: digits => if digits.isEmpty then some 0 else ofBaseDigits? 16 digits
  | '0' :: 'X' :: digits => if digits.isEmpty then some 0 else ofBaseDigits? 16 digits
  | '0' :: d :: digits => ofBaseDigits? 8 (d :: digits)
  | _ => ofBaseDigits? 10 part

/-- The labels of a domain name without an empty one at the end. -/
def labels (name : List Char) : List (List Char) :=
  let parts := splitAtEach (· == '.') name
  if parts.getLast? == some [] then parts.dropLast else parts

/-- Whether the last label of a domain name is a number. -/
def endsInNumber (name : List Char) : Bool :=
  match (labels name).getLast? with
  | none => false
  | some last => (!last.isEmpty && last.all Char.isDigit) || (ipv4Part? last).isSome

/-- The address of up to four parts: every part but the last is a byte, and the
last one fills the bytes that are left. -/
def ofParts? (parts : List Nat) : Option Nat :=
  let bytes := parts.dropLast
  match parts.getLast? with
  | none => none
  | some last =>
    if 4 < parts.length || bytes.any (255 < ·) || Nat.pow 256 (4 - bytes.length) ≤ last then none
    else some (bytes.foldl (fun n b => 256 * n + b) 0 * Nat.pow 256 (4 - bytes.length) + last)

/-- The bytes of an address, separated by full stops. -/
def ipv4Text (address : Nat) : String :=
  String.intercalate "." <|
    [address / 16777216, address / 65536 % 256, address / 256 % 256, address % 256].map toString

/-! ## Addresses of eight pieces -/

/-- A byte in decimal without leading zeros. -/
def byte? (digits : List Char) : Option Nat :=
  if digits.length ≤ 3 && (digits.length ≤ 1 || digits.head? != some '0') then
    (ofBaseDigits? 10 digits).filter (· ≤ 255)
  else none

/-- The two pieces of an address of four bytes. -/
def dottedPieces? (text : List Char) : Option (List Nat) :=
  match (splitAtEach (· == '.') text).mapM byte? with
  | some [a, b, c, d] => some [256 * a + b, 256 * c + d]
  | _ => none

/-- A piece of one to four hexadecimal digits. -/
def piece? (digits : List Char) : Option Nat :=
  if digits.length ≤ 4 then ofBaseDigits? 16 digits else none

/-- Pieces separated by colons; the last one may be an address of four bytes in
place of two pieces. -/
def pieces? : List (List Char) → Option (List Nat)
  | [] => some []
  | [last] => if last.contains '.' then dottedPieces? last else (piece? last).map ([·])
  | first :: rest => do
    let piece ← piece? first
    let others ← pieces? rest
    some (piece :: others)

/-- The pieces of one side of a gap; a side may be empty. -/
def side? (text : List Char) : Option (List Nat) :=
  if text.isEmpty then some [] else pieces? (splitAtEach (· == ':') text)

/-- A text divided at the first double colon. -/
def gap? : List Char → Option (List Char × List Char)
  | [] => none
  | ':' :: ':' :: rest => some ([], rest)
  | c :: rest => (gap? rest).map fun sides => (c :: sides.1, sides.2)

/-- An address of eight pieces; a double colon stands for the zeros that are
missing. -/
def ipv6? (text : List Char) : Option (List Nat) :=
  match gap? text with
  | none =>
    (pieces? (splitAtEach (· == ':') text)).filter (·.length == 8)
  | some (left, right) => do
    if left.contains '.' then none
    else
      let left ← side? left
      let right ← side? right
      let given := left.length + right.length
      if 7 < given then none else some (left ++ List.replicate (8 - given) 0 ++ right)

/-- The length of the run of zeros at the front. -/
def zerosAtFront (pieces : List Nat) : Nat := (pieces.takeWhile (· == 0)).length

/-- Where the longest run of zeros starts, and its length; the first of several. -/
def longestZeros : List Nat → Nat → Nat × Nat
  | [], index => (index, 0)
  | piece :: rest, index =>
    let here := zerosAtFront (piece :: rest)
    let later := longestZeros rest (index + 1)
    if later.2 ≤ here then (index, here) else later

/-- Pieces in hexadecimal, separated by colons. -/
def piecesText (pieces : List Nat) : String :=
  String.intercalate ":" (pieces.map fun n => String.ofList (Nat.toDigits 16 n))

/-- An address of eight pieces; the longest run of two or more zeros is left
out. -/
def ipv6Text (pieces : List Nat) : String :=
  let (start, count) := longestZeros pieces 0
  if count < 2 then piecesText pieces
  else piecesText (pieces.take start) ++ "::" ++ piecesText (pieces.drop (start + count))

/-! ## Reading and writing -/

/-- A host as it stands in a URL. -/
def text : Host → String
  | domain name => name
  | ipv4 address => ipv4Text address
  | ipv6 pieces => "[" ++ ipv6Text pieces ++ "]"

/-- An address in brackets. -/
def ofBracketed (inner : List Char) : Except UrlError Host :=
  if inner.getLast? == some ']' then
    match ipv6? inner.dropLast with
    | some pieces => .ok (.ipv6 pieces)
    | none => .error .badIpv6
  else .error .badIpv6

/-- The address that a domain name stands for if it ends in a number. -/
def ofAscii (name : String) : Except UrlError Host :=
  if name = "" then .error .emptyHost
  else if endsInNumber name.toList then
    match ((labels name.toList).mapM ipv4Part?).bind ofParts? with
    | some address => .ok (.ipv4 address)
    | none => .error .badIpv4
  else .ok (.domain name)

/-- The host of a scheme that gives hosts a meaning. -/
def ofSpecial (text : List Char) : Except UrlError Host :=
  match text with
  | '[' :: inner => ofBracketed inner
  | _ =>
    match (String.fromUTF8? ⟨(UrlEscape.unescape text).toArray⟩).bind Domain.toAscii? with
    | some name => ofAscii name
    | none => .error .badDomain

/-- Characters that no host may hold. -/
def forbidden : List Char :=
  ['\x00', '\t', '\n', '\r', ' ', '#', '/', ':', '<', '>', '?', '@', '[', '\\', ']', '^', '|']

/-- The host of any other scheme. -/
def ofOther (text : List Char) : Except UrlError Host :=
  match text with
  | '[' :: inner => ofBracketed inner
  | _ =>
    if text.any forbidden.contains then .error .badHostCharacter
    else .ok (.domain (UrlEscape.escape .plain text))

end Host

end ViewSchema
