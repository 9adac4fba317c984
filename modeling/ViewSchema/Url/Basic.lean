import ViewSchema.Url.Host

/-!
# URLs

A URL as the record of its parts, and its text.
-/

namespace ViewSchema

/-- What the scheme of a URL says about its other parts: files have a host that
may be left out and drives in their paths, the schemes of the web always have a
host, and other schemes are bound by nothing. -/
inductive SchemeKind where
  | file
  | web
  | other
deriving DecidableEq

namespace SchemeKind

/-- The ports that the schemes of the web have if a URL names none. -/
def defaultPorts : List (String × Nat) :=
  [("http", 80), ("https", 443), ("ws", 80), ("wss", 443), ("ftp", 21)]

/-- The kind of a scheme. -/
def of (scheme : String) : SchemeKind :=
  if scheme = "file" then file
  else if (defaultPorts.lookup scheme).isSome then web
  else other

/-- Whether URLs of this kind follow the rules of the web: hosts have a meaning,
and a backslash is as good as a slash. -/
def isSpecial (kind : SchemeKind) : Bool := kind != other

/-- Whether a character separates the segments of a path. -/
def isSlash (kind : SchemeKind) (c : Char) : Bool := c == '/' || (kind.isSpecial && c == '\\')

/-- Whether a character ends the part of a URL that names the host. -/
def endsAuthority (kind : SchemeKind) (c : Char) : Bool := kind.isSlash c || c == '?' || c == '#'

/-- The part whose escapes the query uses. -/
def queryPart (kind : SchemeKind) : UrlPart := if kind.isSpecial then .specialQuery else .query

end SchemeKind

/-- The path of a URL: text that nothing can be relative to, or segments that
each follow a slash. -/
inductive UrlPath where
  | flat (text : String)
  | segments (names : List String)
deriving DecidableEq, Inhabited

/-- The text of a path. -/
def UrlPath.text : UrlPath → String
  | flat text => text
  | segments names => String.join (names.map ("/" ++ ·))

/-- A URL. An empty user name or password is one that is left out; a host that is
left out still leaves its two slashes, which a URL without `host` does not have. -/
structure Url where
  scheme : String
  username : String
  password : String
  host : Option Host
  port : Option Nat
  path : UrlPath
  query : Option String
  fragment : Option String
deriving DecidableEq, Inhabited

namespace Url

/-- A URL that has nothing but a scheme and a path. -/
def ofPath (scheme : String) (path : UrlPath) : Url :=
  ⟨scheme, "", "", none, none, path, none, none⟩

/-- The kind of the scheme. -/
def kind (url : Url) : SchemeKind := SchemeKind.of url.scheme

/-- Who asks for the resource. -/
def userinfo (url : Url) : String :=
  if url.username = "" ∧ url.password = "" then ""
  else
    url.username ++ (if url.password = "" then "" else ":" ++ url.password) ++ "@"

/-- What stands between the scheme and the path. Two slashes at the front of a
path without a host would name one, and are kept apart by a dot. -/
def authority (url : Url) : String :=
  match url.host with
  | some host =>
    "//" ++ url.userinfo ++ host.text
      ++ (match url.port with | some port => ":" ++ toString port | none => "")
  | none =>
    match url.path with
    | .segments ("" :: _ :: _) => "/."
    | _ => ""

/-- The text of a URL. -/
def text (url : Url) : String :=
  url.scheme ++ ":" ++ url.authority ++ url.path.text
    ++ (match url.query with | some query => "?" ++ query | none => "")
    ++ (match url.fragment with | some fragment => "#" ++ fragment | none => "")

end Url

end ViewSchema
