import ViewSchema.Component.Registry
import ViewSchema.Config.App
import ViewSchema.Dictionary
import ViewSchema.Fetch.Timeline
import ViewSchema.Route.Table
import ViewSchema.State.Store

/-!
# Applications

An application as a whole: its components, texts, stored values, requests and
routes, all set up from one configuration.

Main definitions:

- `Application.start` sets an application up on a directory for its state.
- Every operation gives the application after it, its result, and the events that
  it publishes.
-/

namespace ViewSchema

structure Application where
  config : AppConfig
  registry : Registry
  dictionary : Dictionary
  store : Store
  fetcher : Fetcher
  routes : RouteTable

/-- Why an application cannot start. -/
inductive StartError where
  | storage (error : StorageError)
  | baseUrl (text : String) (error : UrlError)

namespace Application

/-- The key under which the current language is stored. -/
def langKey : String := "lang"

/-- The base of relative addresses that a configuration names. -/
def baseOf (config : AppConfig) : Except StartError (Option Url) :=
  match config.api with
  | none => .ok none
  | some text =>
    match baseUrl text with
    | .ok base => .ok (some base)
    | .error error => .error (.baseUrl text error)

/-- A fetcher as a configuration asks for it. Failures are announced. -/
def fetcherOf (config : AppConfig) (base : Option Url) : Fetcher :=
  .ofPolicy
    { FetchPolicy.standard with
      base
      timeout := config.timeoutMs
      minLatency := config.minLatencyMs
      listens := true }
    config.headers

/-- The texts of a configuration, in a language. -/
def dictionaryOf (config : AppConfig) (lang : String) : Dictionary :=
  (Dictionary.ofLang lang config.fallbackLang).addTables (.object config.dictionaries)

/-- Set an application up. A stored language goes before that of the
configuration. -/
def start (config : AppConfig) (directory : StateDirectory) : Except StartError Application := do
  let (store, seeded) := (Store.opened directory).seed config.initialState
  seeded.mapError .storage
  let base ← baseOf config
  let (store, lang) := store.get langKey
  let lang ← lang.mapError .storage
  return {
    config
    registry := .standard
    dictionary := dictionaryOf config ((lang.bind Json.string?).getD config.lang)
    store
    fetcher := fetcherOf config base
    routes := .ofConfigs config.routes }

/-- Hooks around every call: one adapts its options, the other maps its value. -/
def withHooks (app : Application) (before : String → FetchOptions → FetchOptions)
    (after : Json → Json) : Application :=
  { app with
    fetcher := { app.fetcher with policy := { app.fetcher.policy with before, after } } }

/-! ## Stored values -/

def get (app : Application) (key : String) :
    Application × Except StorageError (Option Json) :=
  let (store, value) := app.store.get key
  ({ app with store }, value)

def set (app : Application) (key : String) (value : Json) (options : StoreOptions) :
    Application × Except StorageError (List Publication) :=
  let (store, published) := app.store.set key value options
  ({ app with store }, published)

def remove (app : Application) (key : String) (options : StoreOptions) :
    Application × Except StorageError (List Publication) :=
  let (store, published) := app.store.remove key options
  ({ app with store }, published)

/-! ## Language -/

/-- The current language. -/
def lang (app : Application) : String := app.dictionary.lang

/-- Switch the language, and store it. -/
def setLang (app : Application) (lang : String) :
    Application × Except StorageError (List Publication) :=
  { app with dictionary := app.dictionary.setLang lang }.set langKey (.string lang)
    (.announced (some .local))

/-- A text in the current language; one that the dictionary lacks stays as it is. -/
def translate (app : Application) (text : String) : String :=
  (app.dictionary.translate? text).getD text

def addTables (app : Application) (tables : Json) : Application :=
  { app with dictionary := app.dictionary.addTables tables }

/-! ## Requests -/

/-- The headers of every request. -/
def headers (app : Application) : List (String × String) := app.fetcher.headers

def setHeader (app : Application) (name value : String) : Application :=
  { app with fetcher := { app.fetcher with headers := Headers.set app.headers name value } }

def removeHeader (app : Application) (name : String) : Application :=
  { app with fetcher := { app.fetcher with headers := Headers.remove app.headers name } }

/-- The announcements of failures in a timeline. -/
def failureEvents (app : Application) (line : Timeline) : List Publication :=
  line.failures.filterMap fun
    | (_, .fetcher, value) => some ⟨Event.topic "error" app.config.name, .custom value⟩
    | _ => none

/-- Make calls that start together. -/
def fetchAll (app : Application) (transport : Transport) (calls : List (String × FetchOptions)) :
    Application × Timeline × List Publication :=
  let line := Timeline.of app.fetcher transport
    (calls.map fun (url, options) => ⟨0, url, options⟩)
  ({ app with fetcher := line.fetcher }, line, app.failureEvents line)

/-! ## Routes -/

/-- Replace the routes, and tell whether they change. -/
def setRoutes (app : Application) (configs : List RouteConfig) : Application × Bool :=
  let (routes, changed) := app.routes.replace configs
  ({ app with routes }, changed)

def match? (app : Application) (path : String) : Option RouteMatch := app.routes.match? path

end Application

end ViewSchema
