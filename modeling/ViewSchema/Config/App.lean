import ViewSchema.Config.Toml
import ViewSchema.File.Path
import ViewSchema.Json.Reader
import ViewSchema.Route.Config

/-!
# Application configuration

The settings of an application, read from JSON or TOML. Every setting may be left
out, none may be given twice, and unknown ones do not count.
-/

namespace ViewSchema

structure AppConfig where
  name : String
  lang : String
  fallbackLang : Option String
  /-- Texts by language. -/
  dictionaries : List (String × Json)
  /-- The base of relative request addresses. -/
  api : Option String
  /-- Headers of every request, sorted by name. -/
  headers : List (String × String)
  /-- How long a request may take; zero is without limit. -/
  timeoutMs : Nat
  /-- How long a request takes at least. -/
  minLatencyMs : Nat
  stateDir : Option String
  /-- Values of keys that are not stored yet. -/
  initialState : List (String × Json)
  routes : List RouteConfig
  /-- Views by route name. -/
  views : List (String × Json)
  /-- Parts that views can refer to. -/
  definitions : List (String × Json)
deriving Repr

namespace AppConfig

def standard : AppConfig :=
  { name := "app", lang := "en", fallbackLang := none, dictionaries := [], api := none,
    headers := [], timeoutMs := 0, minLatencyMs := 1000, stateDir := none, initialState := [],
    routes := [], views := [], definitions := [] }

instance : Inhabited AppConfig := ⟨standard⟩

/-- The names of the settings, in order. -/
def fieldNames : List String :=
  ["name", "lang", "fallbackLang", "dictionaries", "api", "headers", "timeoutMs",
    "minLatencyMs", "stateDir", "initialState", "routes", "views", "definitions"]

/-- A header with its value. -/
def header? (field : String × Setting) : Option (String × String) :=
  field.2.string?.map fun value => (field.1, value)

/-- Headers sorted by name; of a repeated one the last value counts. -/
def headers? (s : Setting) : Option (List (String × String)) :=
  s.table?.bind fun fields =>
    (fields.mapM header?).map fun headers =>
      (Fields.ofList headers).mergeSort fun a b => a.1 ≤ b.1

/-- Read settings by name. -/
def ofFields? (fields : List (String × Setting)) : Option AppConfig := do
  let text := Setting.optional? Setting.string?
  let d := standard
  let name ← Setting.field? fields "name" Setting.string? (some d.name)
  let lang ← Setting.field? fields "lang" Setting.string? (some d.lang)
  let fallbackLang ← Setting.field? fields "fallbackLang" text (some d.fallbackLang)
  let dictionaries ← Setting.field? fields "dictionaries" Setting.object? (some d.dictionaries)
  let api ← Setting.field? fields "api" text (some d.api)
  let headers ← Setting.field? fields "headers" headers? (some d.headers)
  let timeoutMs ← Setting.field? fields "timeoutMs" Setting.nat? (some d.timeoutMs)
  let minLatencyMs ← Setting.field? fields "minLatencyMs" Setting.nat? (some d.minLatencyMs)
  let stateDir ← Setting.field? fields "stateDir" text (some d.stateDir)
  let initialState ← Setting.field? fields "initialState" Setting.object? (some d.initialState)
  let routes ← Setting.field? fields "routes" RouteConfig.ofList? (some d.routes)
  let views ← Setting.field? fields "views" Setting.object? (some d.views)
  let definitions ← Setting.field? fields "definitions" Setting.object? (some d.definitions)
  some
    { name, lang, fallbackLang, dictionaries, api, headers, timeoutMs, minLatencyMs, stateDir,
      initialState, routes, views, definitions }

/-- Read a configuration: settings by name, or a list of them in order. -/
def ofSetting? : Setting → Option AppConfig
  | .table fields => ofFields? fields
  | .list items =>
    if fieldNames.length < items.length then none else ofFields? (fieldNames.zip items)
  | _ => none

/-- Why a configuration cannot be read. -/
inductive LoadError where
  | unreadable
  | malformed
deriving DecidableEq, Repr

/-- The configuration in a file with a path, given what the file holds, if there
is one. The extension tells the format. -/
def load (path : String) (content : Option String) : Except LoadError AppConfig :=
  match content with
  | none => .error .unreadable
  | some text =>
    let setting := match FilePath.extension? path with
      | some "toml" => Setting.ofToml? text
      | some "json" => (Json.parseAsWritten? text).map Setting.ofJson
      | _ => none
    match setting.bind ofSetting? with
    | some config => .ok config
    | none => .error .malformed

/-- The directory for stored state: one from the environment goes first. -/
def stateDirectory? (config : AppConfig) (environment : Option String) : Option String :=
  environment.or config.stateDir

def textOrNull (text : Option String) : Json :=
  match text with
  | some s => .string s
  | none => .null

def toJson (c : AppConfig) : Json :=
  .object
    [("name", .string c.name), ("lang", .string c.lang),
      ("fallbackLang", textOrNull c.fallbackLang), ("dictionaries", .object c.dictionaries),
      ("api", textOrNull c.api),
      ("headers", .object (c.headers.map fun h => (h.1, .string h.2))),
      ("timeoutMs", .int c.timeoutMs), ("minLatencyMs", .int c.minLatencyMs),
      ("stateDir", textOrNull c.stateDir), ("initialState", .object c.initialState),
      ("routes", RouteConfig.listToJson c.routes), ("views", .object c.views),
      ("definitions", .object c.definitions)]

end AppConfig

end ViewSchema
