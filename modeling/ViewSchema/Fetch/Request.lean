import ViewSchema.Fetch.Headers
import ViewSchema.Json.Reader
import ViewSchema.Text.Blank
import ViewSchema.Url.Query
import ViewSchema.Url.Reader

/-!
# Requests and responses

What is sent for a call, what comes back, and the ways in which that fails. The
address of a call may be relative to a base, and its query is appended to it.
-/

namespace ViewSchema

/-- A request as it is sent. -/
structure Request where
  method : String
  url : Url
  headers : List (String × String)
  body : Option Json

/-- How the body of a response is handed back. -/
inductive ResponseFormat where
  | json
  | text
  | raw
deriving DecidableEq, Inhabited

structure Response where
  status : Nat
  headers : List (String × String)
  text : String
deriving DecidableEq, Inhabited

namespace Response

def isSuccess (response : Response) : Bool := 200 ≤ response.status && response.status < 300

/-- A body as a value: text that is not JSON stands for itself, and a blank one is
null. -/
def parseBody (text : String) : Json :=
  if isAllBlank text then .null else (Json.parse? text).getD (.string text)

/-- The value of a response in a format. -/
def decode (response : Response) : ResponseFormat → Json
  | .json => parseBody response.text
  | .text => .string response.text
  | .raw =>
    .object
      [("status", .int response.status),
        ("headers", .object (response.headers.map fun h => (h.1, .string h.2))),
        ("body", .string response.text)]

end Response

/-- Why a call fails. -/
inductive FetchError where
  | timeout (milliseconds : Nat)
  | status (code : Nat) (body : Json)
  | network (message : String)
  | invalidUrl (reason : String)

namespace FetchError

/-- The text of an error. -/
def message : FetchError → String
  | timeout ms => "request timed out after " ++ toString ms ++ "ms"
  | status code _ => "HTTP " ++ toString code
  | network reason => "network error: " ++ reason
  | invalidUrl reason => "invalid url: " ++ reason

/-- The status of the response; without one, the status that says so. -/
def code : FetchError → Nat
  | timeout _ => 408
  | status code _ => code
  | network _ => 0
  | invalidUrl _ => 0

/-- What only some errors have to add. -/
def details : FetchError → List (String × Json)
  | timeout _ => [("timeout", .bool true)]
  | status _ body => if body.isNull then [] else [("body", body)]
  | _ => []

/-- The value that stands for an error of a call. -/
def toJson (error : FetchError) (url : String) : Json :=
  .object <|
    [("error", .bool true), ("status", .int error.code), ("message", .string error.message),
      ("url", .string url)] ++ error.details

end FetchError

/-- What is asked for in a call beside its address. -/
structure FetchOptions where
  method : Option String
  query : List (String × Json)
  body : Option Json
  headers : List (String × String)
  /-- Milliseconds, zero being without limit; the common ones if left out. -/
  timeout : Option Nat
  minLatency : Option Nat
  format : ResponseFormat
  /-- Whether the call has a listener of its own for failures. -/
  listens : Bool

namespace FetchOptions

def standard : FetchOptions := ⟨none, [], none, [], none, none, .json, false⟩

instance : Inhabited FetchOptions := ⟨standard⟩

def addHeader (options : FetchOptions) (name value : String) : FetchOptions :=
  { options with headers := Headers.set options.headers name value }

def addQuery (options : FetchOptions) (name : String) (value : Json) : FetchOptions :=
  { options with query := Fields.set options.query name value }

/-- The method in capitals. -/
def verb (options : FetchOptions) : String := capitals (options.method.getD "GET")

end FetchOptions

/-- The base that a text names; relative addresses are below it. -/
def baseUrl (text : String) : Except UrlError Url :=
  Url.ofText (if text.toList.getLast? = some '/' then text else text ++ "/")

/-- The text of an error in the base. -/
def baseUrlMessage (text : String) (error : UrlError) : String :=
  "invalid api base url " ++ text ++ ": " ++ error.message

/-- The absolute address of a call: its own, or the one below the base. -/
def absoluteUrl (base : Option Url) (url : String) : Except FetchError Url :=
  let failed (error : UrlError) := FetchError.invalidUrl (url ++ ": " ++ error.message)
  match Url.ofText url, base with
  | .ok absolute, _ => .ok absolute
  | .error .relativeWithoutBase, none =>
    .error (.invalidUrl (url ++ " (no api base configured)"))
  | .error .relativeWithoutBase, some base =>
    (base.join (trimFront (· == '/') url)).mapError failed
  | .error error, _ => .error (failed error)

/-- The address of a call with its query appended. -/
def resolveUrl (base : Option Url) (url : String) (query : List (String × Json)) :
    Except FetchError Url :=
  (absoluteUrl base url).map (·.addQuery query)

end ViewSchema
