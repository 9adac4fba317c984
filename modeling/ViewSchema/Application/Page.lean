import ViewSchema.Application.Basic
import ViewSchema.Compile.Compiler
import ViewSchema.Component.Render
import ViewSchema.Reference

/-!
# Pages

What an application shows: views with their references resolved, compiled in its
language. References lead to the definitions of the configuration, to stored
values, and to one more root, which holds the parameters of a route or data.
-/

namespace ViewSchema

namespace Application

/-- The topic of navigation. -/
def locationTopic : String := "location"

/-- What references of a view lead to. -/
def context (app : Application) (root : String) (value : Json) : Json :=
  .object <|
    Fields.set
      [("definitions", .object app.config.definitions), ("state", app.store.snapshot)] root value

/-- The compiler of an application. -/
def compilerWith (app : Application) (props : CompilerProps) : Compiler :=
  { registry := app.registry
    props
    translate := app.dictionary.translate?
    formatter := ⟨app.lang⟩ }

/-- Compile a view with a value reachable under a root. -/
def build (app : Application) (view : Json) (root : String) (value : Json)
    (props : CompilerProps) : Node :=
  (app.compilerWith props).compile (Reference.resolve (app.context root value) view)

/-- Compile a view with data. -/
def compile (app : Application) (view data : Json) : Node :=
  app.build view "data" data { name := app.config.name }

/-- The view of a route: its own, else the one under its name. -/
def viewFor? (app : Application) (route : Route) : Option Json :=
  route.view.or (app.config.views.lookup route.name)

/-- A path without its query, and the query with its question mark. -/
def splitSearch (path : String) : String × String :=
  let cs := path.toList
  (String.ofList (cs.takeWhile (· != '?')), String.ofList (cs.dropWhile (· != '?')))

/-- The props of a page. -/
def pageProps (app : Application) (path : String) (found : RouteMatch) : CompilerProps :=
  let (pathname, search) := splitSearch path
  { name := app.config.name
    location := some (.object [("pathname", .string pathname), ("search", .string search)])
    routeMatch := some <| .object
      [("name", .string found.route.name), ("path", .string found.route.path),
        ("params", .object found.params)] }

/-- What a path shows: the view of its route, or an error if there is none. -/
def page (app : Application) (path : String) : Node :=
  match app.match? path with
  | none =>
    Render.errorNode ("No route matches " ++ (splitSearch path).1)
      (.object [("path", .string path)])
  | some found =>
    match app.viewFor? found.route with
    | none =>
      Render.errorNode ("No view for route " ++ found.route.name)
        (.object [("route", .string found.route.name), ("path", .string found.route.path)])
    | some view => app.build view "params" (.object found.params) (app.pageProps path found)

/-- The announcement of navigation to a path. -/
def navigation (app : Application) (path : String) : Publication :=
  let params := ((app.match? path).map RouteMatch.params).getD []
  ⟨locationTopic, .location (splitSearch path).1 params⟩

end Application

end ViewSchema
