import ViewSchema.Route.Config
import ViewSchema.Route.Pattern

/-!
# Route tables

Nested routes as one list of routes with full paths. Each name stands for one
route: it keeps the place of its first occurrence and the content of its last.

Main definitions:

- `Route.flatten` makes the list.
- `RouteTable` holds it together with the fingerprint of what it was made from.
-/

namespace ViewSchema

/-- A route with its full path. -/
structure Route where
  name : String
  path : String
  component : Option String
  view : Option Json
  extra : List (String × Json)
deriving Repr

namespace Route

/-- A path with a slash in front of each segment and nowhere else. -/
def normalize (path : String) : String := "/" ++ String.intercalate "/" (pathSegments path)

/-- The path of a route below another one; a path that begins with a slash stands
for itself. -/
def joinPath (parent path : String) : String :=
  if path.startsWith "/" || parent.isEmpty then normalize path
  else normalize (trimBack (· == '/') parent ++ "/" ++ path)

/-- The route of a configuration with a full path. -/
def ofConfig (config : RouteConfig) (path : String) : Route :=
  { name := config.name.getD path, path, component := config.component, view := config.view,
    extra := config.extra }

mutual

/-- The active routes of a configuration, each before those below it. -/
def listing (parent : String) : RouteConfig → List Route
  | ⟨path, name, component, active, view, routes, extra⟩ =>
    if active then
      let full := joinPath parent path
      ofConfig ⟨path, name, component, active, view, routes, extra⟩ full
        :: listings full routes
    else []

def listings (parent : String) : List RouteConfig → List Route
  | [] => []
  | c :: cs => listing parent c ++ listings parent cs

end

/-- Routes by name. -/
def byName (routes : List Route) : List (String × Route) :=
  Fields.ofList (routes.map fun route => (route.name, route))

/-- The routes of nested configurations. -/
def flatten (configs : List RouteConfig) : List Route :=
  (byName (listings "" configs)).map Prod.snd

end Route

/-- A route that a path leads to, with the values of its names. -/
structure RouteMatch where
  route : Route
  params : List (String × Json)
deriving Repr

structure RouteTable where
  routes : List Route
  fingerprint : String
deriving Repr

namespace RouteTable

def ofConfigs (configs : List RouteConfig) : RouteTable :=
  ⟨Route.flatten configs, RouteConfig.fingerprint configs⟩

/-- The table of other configurations, and whether it is another one; for configurations with the
same written form the table stays. -/
def replace (table : RouteTable) (configs : List RouteConfig) : RouteTable × Bool :=
  if RouteConfig.fingerprint configs = table.fingerprint then (table, false)
  else (ofConfigs configs, true)

/-- The table after setting routes. -/
def setRoutes (table : RouteTable) (configs : List RouteConfig) : RouteTable :=
  (table.replace configs).1

/-- Whether setting routes changes the table. -/
def changes (table : RouteTable) (configs : List RouteConfig) : Bool :=
  (table.replace configs).2

def get? (table : RouteTable) (name : String) : Option Route :=
  table.routes.find? fun route => route.name == name

/-- The first route whose path matches. -/
def match? (table : RouteTable) (path : String) : Option RouteMatch :=
  table.routes.findSome? fun route =>
    (RoutePattern.match? route.path path).map fun params => ⟨route, params⟩

end RouteTable

end ViewSchema
