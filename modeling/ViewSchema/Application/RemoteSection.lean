import ViewSchema.Application.Page

/-!
# Remote sections

Sections whose content comes from a request. A section whose request was
superseded still shows that it is loading, and one whose request failed shows the
error.
-/

namespace ViewSchema

structure RemoteSection where
  name : String
  url : String
  options : FetchOptions
  /-- Compiled with the response as data; without one the response itself is the
  content of the section. -/
  view : Option Json

namespace RemoteSection

/-- The view of a response as content. -/
def plainView (s : RemoteSection) (data : Json) : Json :=
  .object [("name", .string s.name), ("content", data)]

/-- What a section shows once its request has ended. -/
def render (s : RemoteSection) (app : Application) : FetchOutcome → Node
  | .aborted => Render.loadingPlaceholder s.name
  | .failed error => Render.errorNode ("Could not load " ++ s.url) error
  | .ok data =>
    match s.view with
    | some view => app.compile view data
    | none => app.compile (s.plainView data) .null

/-- The call of a section. -/
def call (s : RemoteSection) : String × FetchOptions := (s.url, s.options)

end RemoteSection

end ViewSchema
