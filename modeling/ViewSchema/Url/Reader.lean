import ViewSchema.Url.Basic

/-!
# Reading URLs

A text read as a URL: on its own, or relative to another one that lends it the
parts that it leaves out. Blanks around the text and line breaks inside it do
not count.

Main definitions:

- `Url.ofText?` reads a text on its own; the error of a text that names no
  scheme is `UrlError.relativeWithoutBase`.
- `Url.join` reads a text relative to a base.
-/

namespace ViewSchema

/-! ## Paths -/

namespace UrlPath

/-- The segment that stays where it is. -/
def isDot (segment : List Char) : Bool :=
  [".", "%2e"].contains (String.ofList (segment.map Char.toLower))

/-- The segment that goes up. -/
def isDoubleDot (segment : List Char) : Bool :=
  ["..", ".%2e", "%2e.", "%2e%2e"].contains (String.ofList (segment.map Char.toLower))

/-- Whether a segment names a drive: a letter and a colon or a bar. -/
def isDrive : List Char → Bool
  | [letter, mark] => letter.isAlpha && (mark == ':' || mark == '|')
  | _ => false

/-- The segments one level up, the nearest first. Nothing is above a drive. -/
def parent : List String → List String
  | [] => []
  | last :: rest => if isDrive last.toList then last :: rest else rest

/-- A segment as it is kept. The drive at the front of the path of a file is
written with a colon. -/
def kept (kind : SchemeKind) (above : List String) (segment : List Char) : String :=
  match kind, above, segment with
  | .file, [], [letter, '|'] => String.ofList [letter, if letter.isAlpha then ':' else '|']
  | _, _, _ => UrlEscape.escape .path segment

/-- Follow segments from the ones above, the nearest first. -/
def follow (kind : SchemeKind) (above : List String) : List (List Char) → List String
  | [] => above.reverse
  | [last] =>
    if isDoubleDot last then ("" :: parent above).reverse
    else if isDot last then ("" :: above).reverse
    else (kept kind above last :: above).reverse
  | segment :: rest =>
    if isDoubleDot segment then follow kind (parent above) rest
    else if isDot segment then follow kind above rest
    else follow kind (kept kind above segment :: above) rest

/-- Where the path of a URL ends. -/
def isEnd (c : Char) : Bool := c == '?' || c == '#'

/-- The segments that a text names below the ones above. -/
def read (kind : SchemeKind) (above : List String) (cs : List Char) : List String :=
  follow kind above (splitAtEach kind.isSlash (cs.takeWhile fun c => !isEnd c))

/-- The segments that a relative text starts from: all but the last one. -/
def base (kind : SchemeKind) : UrlPath → List String
  | flat _ => []
  | segments names =>
    match kind, names.reverse with
    | _, [] => []
    | .file, last :: above => if isDrive last.toList then last :: above else above
    | _, _ :: above => above

/-- Segments without empty ones at the front; one is left. -/
def withoutGap : List String → List String
  | "" :: second :: rest => withoutGap (second :: rest)
  | names => names

end UrlPath

namespace Url

/-! ## Parts -/

/-- Tabs and line breaks do not count. -/
def isSkipped (c : Char) : Bool := c == '\t' || c == '\n' || c == '\r'

/-- The characters of a text that count. -/
def significant (text : String) : List Char :=
  (trimBack (·.toNat ≤ 0x20) (trimFront (·.toNat ≤ 0x20) text)).toList.filter (!isSkipped ·)

/-- The characters of a scheme. -/
def isSchemeChar (c : Char) : Bool := c.isAlphanum || c == '+' || c == '-' || c == '.'

/-- The scheme that a text starts with, and what follows it. -/
def scheme? (cs : List Char) : Option (String × List Char) :=
  match cs.dropWhile isSchemeChar with
  | ':' :: rest =>
    if (cs.headD ':').isAlpha then
      some (String.ofList ((cs.takeWhile isSchemeChar).map Char.toLower), rest)
    else none
  | _ => none

/-- A fragment. -/
def withFragment (url : Url) (cs : List Char) : Url :=
  { url with fragment := some (UrlEscape.escape .fragment cs) }

/-- The query and the fragment that follow a path. -/
def withTail (url : Url) (cs : List Char) : Url :=
  let url := { url with query := none, fragment := none }
  match cs.dropWhile (fun c => !UrlPath.isEnd c) with
  | '?' :: rest =>
    let query := UrlEscape.escape url.kind.queryPart (rest.takeWhile (· != '#'))
    let url := { url with query := some query }
    match rest.dropWhile (· != '#') with
    | _ :: fragment => url.withFragment fragment
    | [] => url
  | _ :: fragment => url.withFragment fragment
  | [] => url

/-- A URL whose path and tail a text gives, below the segments above. -/
def withPath (url : Url) (above : List String) (cs : List Char) : Url :=
  { url with path := .segments (UrlPath.read url.kind above cs) }.withTail cs

/-- A text divided after the last at sign, if it has one. -/
def splitUserinfo (cs : List Char) : Option (List Char × List Char) :=
  match cs.reverse.dropWhile (· != '@') with
  | [] => none
  | _ :: info => some (info.reverse, (cs.reverse.takeWhile (· != '@')).reverse)

/-- A text divided before the first colon that no brackets enclose. -/
def splitHost (inside : Bool) : List Char → List Char × List Char
  | [] => ([], [])
  | c :: rest =>
    if c = ':' ∧ ¬inside then ([], c :: rest)
    else
      let (host, others) := splitHost (c == '[' || (inside && c != ']')) rest
      (c :: host, others)

/-- The port at the front of a text, and what follows it. -/
def readPort (cs : List Char) : Except UrlError (Option Nat × List Char) :=
  let digits := cs.takeWhile Char.isDigit
  let rest := cs.dropWhile Char.isDigit
  let ends := match rest with
    | [] => true
    | c :: _ => c == '/' || c == '\\' || UrlPath.isEnd c
  if !ends || 65535 < ofDigits digits then .error .badPort
  else .ok (if digits.isEmpty then none else some (ofDigits digits), rest)

/-- The host and the port at the front of a text, and what follows them. -/
def readHost (scheme : String) (cs : List Char) :
    Except UrlError (Host × Option Nat × List Char) := do
  let (text, rest) := splitHost false cs
  let special := (SchemeKind.of scheme).isSpecial
  if special && text.isEmpty then throw .emptyHost
  let host ← if special then Host.ofSpecial text else Host.ofOther text
  match rest with
  | ':' :: rest =>
    if host = Host.empty then throw .emptyHost
    let (port, rest) ← readPort rest
    return (host, port.filter fun port => SchemeKind.defaultPorts.lookup scheme != some port, rest)
  | rest => return (host, none, rest)

/-- A path that follows a host. The web always has one. -/
def withRootedPath (url : Url) (cs : List Char) : Url :=
  match cs with
  | c :: rest =>
    if url.kind.isSlash c then url.withPath [] rest
    else if url.kind.isSpecial || !UrlPath.isEnd c then url.withPath [] cs
    else { url with path := .segments [] }.withTail cs
  | [] => { url with path := .segments (if url.kind.isSpecial then [""] else []) }.withTail []

/-- A URL whose text, after the two slashes, starts with the host. -/
def ofAuthority (scheme : String) (cs : List Char) : Except UrlError Url := do
  let kind := SchemeKind.of scheme
  let authority := cs.takeWhile (!kind.endsAuthority ·)
  let tail := cs.dropWhile (!kind.endsAuthority ·)
  let (info, hostText) := (splitUserinfo authority).getD ([], authority)
  if authority = ['@'] ∧ tail ≠ [] then throw .emptyHost
  let username := UrlEscape.escape .userinfo (info.takeWhile (· != ':'))
  let password := UrlEscape.escape .userinfo ((info.dropWhile (· != ':')).drop 1)
  let (host, port, rest) ← readHost scheme hostText
  if host = Host.empty ∧ ¬(username = "" ∧ password = "") then throw .emptyHost
  let url : Url := ⟨scheme, username, password, some host, port, .segments [], none, none⟩
  return url.withRootedPath (rest ++ tail)

/-! ## Files -/

/-- Whether the first segment of a text names a drive. -/
def startsWithDrive (cs : List Char) : Bool :=
  UrlPath.isDrive (cs.takeWhile (!SchemeKind.file.endsAuthority ·))

/-- A file on this host. -/
def localFile : Url := { ofPath "file" (.segments [""]) with host := some Host.empty }

/-- The path of a file; slashes at its front count once. -/
def withFilePath (url : Url) (above : List String) (cs : List Char) : Url :=
  { url with
    path := .segments (UrlPath.withoutGap (UrlPath.read .file above cs)) }.withTail cs

/-- A file whose text, after the two slashes, starts with the host. A drive is no
host, and a path on a drive has none. -/
def fileOfAuthority (cs : List Char) : Except UrlError Url := do
  let text := cs.takeWhile (!SchemeKind.file.endsAuthority ·)
  let rest := cs.dropWhile (!SchemeKind.file.endsAuthority ·)
  let path := match rest with
    | c :: others => if SchemeKind.file.isSlash c then others else rest
    | [] => []
  if UrlPath.isDrive text then return localFile.withFilePath [] cs
  else if text.isEmpty then return localFile.withFilePath [] path
  else
    let host ← Host.ofSpecial text
    let onDrive := ((UrlPath.read .file [] path).headD "").toList
    let host := if host = .domain "localhost" || UrlPath.isDrive onDrive then Host.empty else host
    return { localFile with host := some host }.withFilePath [] path

/-- The file that a text with a single slash at its front names: on the drive of
the base or else on its host. -/
def fileFromRoot (base : Option Url) (cs : List Char) : Url :=
  match base with
  | none => localFile.withFilePath [] cs
  | some base =>
    if startsWithDrive cs then localFile.withFilePath [] cs
    else
      match base.path with
      | .segments (first :: _) =>
        if UrlPath.isDrive first.toList then localFile.withFilePath [first] cs
        else { localFile with host := base.host }.withFilePath [] cs
      | _ => { localFile with host := base.host }.withFilePath [] cs

/-- A file, possibly relative to another one. -/
def ofFile (base : Option Url) (cs : List Char) : Except UrlError Url :=
  let isSlash := SchemeKind.file.isSlash
  match cs.takeWhile isSlash, base with
  | _ :: _ :: _, _ => fileOfAuthority (cs.drop 2)
  | [_], _ => .ok (fileFromRoot base (cs.drop 1))
  | [], none => .ok (localFile.withFilePath [] cs)
  | [], some base =>
    match cs with
    | [] => .ok { base with fragment := none }
    | '?' :: _ => .ok (base.withTail cs)
    | '#' :: fragment => .ok (base.withFragment fragment)
    | _ =>
      if startsWithDrive cs then .ok (localFile.withFilePath [] cs)
      else .ok (base.withFilePath (base.path.base .file) cs)

/-! ## Whole texts -/

/-- A text that names no scheme, relative to a base with segments. -/
def relative (base : Url) (cs : List Char) : Except UrlError Url :=
  let isSlash := SchemeKind.web.isSlash
  match cs with
  | [] => .ok { base with fragment := none }
  | '?' :: _ => .ok (base.withTail cs)
  | '#' :: fragment => .ok (base.withFragment fragment)
  | '/' :: '/' :: rest => ofAuthority base.scheme rest
  | c :: rest =>
    if !isSlash c then .ok (base.withPath (base.path.base base.kind) cs)
    else if (rest.takeWhile isSlash).isEmpty then .ok (base.withPath [] rest)
    else ofAuthority base.scheme (rest.dropWhile isSlash)

/-- A text behind its scheme. -/
def ofScheme (base : Option Url) (scheme : String) (cs : List Char) : Except UrlError Url :=
  match SchemeKind.of scheme with
  | .file => ofFile (base.filter (·.scheme == scheme)) cs
  | .web =>
    let isSlash := SchemeKind.web.isSlash
    match base.filter (·.scheme == scheme), cs.takeWhile isSlash with
    | some base, [] => relative base cs
    | some base, [_] => relative base cs
    | _, _ => ofAuthority scheme (cs.dropWhile isSlash)
  | .other =>
    match cs with
    | '/' :: '/' :: rest => ofAuthority scheme rest
    | '/' :: rest => .ok ((ofPath scheme (.segments [])).withPath [] rest)
    | _ =>
      let text := UrlEscape.escape .plain (cs.takeWhile fun c => !UrlPath.isEnd c)
      .ok ((ofPath scheme (.flat text)).withTail cs)

/-- Read a text on its own. -/
def ofText (text : String) : Except UrlError Url :=
  match scheme? (significant text) with
  | some (scheme, rest) => ofScheme none scheme rest
  | none => .error .relativeWithoutBase

/-- Read a text relative to a base. Nothing but a fragment is relative to flat
text. -/
def join (base : Url) (text : String) : Except UrlError Url :=
  let cs := significant text
  match scheme? cs, cs, base.path with
  | some (scheme, rest), _, _ => ofScheme (some base) scheme rest
  | none, '#' :: fragment, _ => .ok (base.withFragment fragment)
  | none, _, .flat _ => .error .relativeWithFlatBase
  | none, _, .segments _ => if base.kind = .file then ofFile (some base) cs else relative base cs

end Url

end ViewSchema
