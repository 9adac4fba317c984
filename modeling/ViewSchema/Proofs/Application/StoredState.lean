import ViewSchema.Application.RemoteSection
import ViewSchema.Proofs.Reference.Avoidance

/-!
# What is shown and what is stored

Views refer to stored values below the member `state` of their context.  References are
followed wherever they stand: a route parameter or a piece of fetched data that is itself a
reference is followed like one of the view.  Where view, definitions, parameters and data
all avoid that member, stored values have no influence on what is shown.

Main results:

- Theorem `Application.build_eq_of_avoids`: two applications that differ only in what they
  store compile such a view alike.
- Theorem `Application.shown_eq_of_avoids`: so do their pages and remote sections agree.
- Theorem `Application.shown_ne_directory`: a parameter or an answer that refers to stored values
  brings them in, although view and definitions do not.
-/

namespace ViewSchema

namespace Application

variable {app : Application} {root : String} {value view : Json}

/-- The contexts of two applications that differ only in what they store agree but for the
stored values. -/
theorem agreeBut_context (root : String) (store : Store)
    (hdefinitions : (Json.object app.config.definitions).Avoids "state")
    (hvalue : value.Avoids "state") :
    Reference.AgreeBut "state"
      (Fields.set [("definitions", .object app.config.definitions),
        ("state", store.snapshot)] root value)
      (Fields.set [("definitions", .object app.config.definitions),
        ("state", app.store.snapshot)] root value) := by
  constructor
  · intro name hname
    simp only [Fields.lookup_set, Fields.lookup_cons, if_neg hname]
  · intro name found hname hfound
    simp only [Fields.lookup_set, Fields.lookup_cons, if_neg hname] at hfound
    split at hfound
    · cases hfound
      exact hvalue
    · split at hfound
      · cases hfound
        exact hdefinitions
      · cases hfound

/-- Stored values have no influence on an avoiding view in an avoiding context. -/
theorem build_eq_of_avoids (store : Store)
    (hdefinitions : (Json.object app.config.definitions).Avoids "state")
    (hview : view.Avoids "state") (hvalue : value.Avoids "state") (props : CompilerProps) :
    ({ app with store } : Application).build view root value props =
      app.build view root value props := by
  have hresolve := Reference.resolve_eq_of_avoids
    (agreeBut_context root store hdefinitions hvalue) hview
  exact congrArg (app.compilerWith props).compile hresolve

/-- Stored values have no influence on a page whose view and parameters avoid them, nor on a
remote section whose view and data do; without a view of its own, the name of the section
counts as its view. -/
theorem shown_eq_of_avoids (app : Application) (store : Store)
    (hdefinitions : (Json.object app.config.definitions).Avoids "state") :
    (∀ path,
      (∀ found view, app.match? path = some found → app.viewFor? found.route = some view →
        view.Avoids "state" ∧ (Json.object found.params).Avoids "state") →
      ({ app with store } : Application).page path = app.page path) ∧
    ∀ (s : RemoteSection) (outcome : FetchOutcome),
      (s.view.getD (.string s.name)).Avoids "state" →
      (∀ data, outcome = .ok data → data.Avoids "state") →
      s.render { app with store } outcome = s.render app outcome := by
  constructor
  · intro path hpath
    have hmatch : ({ app with store } : Application).match? path = app.match? path := rfl
    unfold page
    rw [hmatch]
    cases hfound : app.match? path with
    | none => rfl
    | some found =>
      have hview : ({ app with store } : Application).viewFor? found.route =
        app.viewFor? found.route := rfl
      simp only [hview]
      cases hown : app.viewFor? found.route with
      | none => rfl
      | some view =>
        obtain ⟨havoids, hparams⟩ := hpath found view hfound hown
        exact build_eq_of_avoids store hdefinitions havoids hparams _
  · intro s outcome hview hdata
    cases outcome with
    | aborted => rfl
    | failed error => rfl
    | ok data =>
      have hdata := hdata data rfl
      unfold RemoteSection.render compile
      cases hown : s.view with
      | some view =>
        rw [hown] at hview
        exact build_eq_of_avoids store hdefinitions hview hdata _
      | none =>
        rw [hown] at hview
        have hplain : (s.plainView data).Avoids "state" := ⟨hview, hdata, trivial⟩
        have hnothing : Json.null.Avoids "state" := trivial
        exact build_eq_of_avoids store hdefinitions hplain hnothing _

/-- The routes of a directory of users. -/
def directoryRoutes : List RouteConfig := [⟨"/users/:id", some "user", none, true, none, [], []⟩]

/-- An application whose one view shows the parameter of its route. -/
def directory (stored : List (String × Json)) : Application where
  config :=
    { AppConfig.standard with
      routes := directoryRoutes
      views := [("user", .object [("name", .string "user"), ("content", .string "$params/id")])] }
  registry := .standard
  dictionary := .ofLang "en" none
  store := { Store.opened (.holding none) with memory := stored }
  fetcher := .ofPolicy .standard []
  routes := .ofConfigs directoryRoutes

/-- A section that shows its answer as it is. -/
def terms : RemoteSection := ⟨"legal", "terms", .standard, none⟩

theorem flatten_directoryRoutes :
    Route.flatten directoryRoutes = [⟨"user", "/users/:id", none, none, []⟩] := by
  have hpath : Route.joinPath "" "/users/:id" = "/users/:id" := by decide +kernel
  have hlistings :
      Route.listings "" directoryRoutes = [⟨"user", "/users/:id", none, none, []⟩] := by
    simp [directoryRoutes, Route.listings, Route.listing, Route.ofConfig, hpath]
  rw [Route.flatten, hlistings]
  rfl

/-- The view of a user avoids stored values, and so do parameters that do. -/
theorem avoids_directory {stored params : List (String × Json)} {path : String}
    (hmatch : RoutePattern.match? "/users/:id" path = some params) {found : RouteMatch}
    {view : Json} (hfound : (directory stored).match? path = some found)
    (hview : (directory stored).viewFor? found.route = some view) :
    view.Avoids "state" ∧ found.params = params := by
  have hroutes : (Route.flatten directoryRoutes).findSome? (fun route =>
      (RoutePattern.match? route.path path).map fun params => (⟨route, params⟩ : RouteMatch)) =
        some found := hfound
  rw [flatten_directoryRoutes] at hroutes
  simp only [List.findSome?_cons, hmatch, Option.map_some] at hroutes
  cases hroutes
  cases hview
  exact ⟨by decide, rfl⟩

theorem shown_eq_of_avoids_directory :
    (Json.object (directory []).config.definitions).Avoids "state" ∧
    ((directory [("token", .string "one")]).page "/users/$5").textContent = "$5" ∧
    (directory [("token", .string "two")]).page "/users/$5" =
      (directory [("token", .string "one")]).page "/users/$5" ∧
    terms.render (directory [("token", .string "two")]) (.ok (.string "$data/token")) =
      terms.render (directory [("token", .string "one")]) (.ok (.string "$data/token")) := by
  have hshown := shown_eq_of_avoids (directory [("token", .string "one")])
    (directory [("token", .string "two")]).store trivial
  refine ⟨trivial, by decide +kernel, hshown.1 "/users/$5" ?_, hshown.2 terms _ ?_ ?_⟩
  · intro found view hfound hview
    have hmatch : RoutePattern.match? "/users/:id" "/users/$5" = some [("id", .string "$5")] := rfl
    obtain ⟨havoids, hparams⟩ := avoids_directory hmatch hfound hview
    exact ⟨havoids, hparams ▸ by decide⟩
  · decide
  · rintro data ⟨⟩
    decide

/-- A parameter or an answer that refers to stored values brings them in, although view and
definitions avoid them. -/
theorem shown_ne_directory :
    (∀ found view, (directory []).match? "/users/$state" = some found →
      (directory []).viewFor? found.route = some view → view.Avoids "state") ∧
    (Json.object (directory []).config.definitions).Avoids "state" ∧
    (directory [("token", .string "one")]).page "/users/$state" ≠
      (directory [("token", .string "two")]).page "/users/$state" ∧
    terms.render (directory [("token", .string "one")]) (.ok (.string "$state/token")) ≠
      terms.render (directory [("token", .string "two")]) (.ok (.string "$state/token")) := by
  refine ⟨?_, trivial, ?_, ?_⟩
  · intro found view hfound hview
    have hmatch : RoutePattern.match? "/users/:id" "/users/$state" =
        some [("id", .string "$state")] := rfl
    exact (avoids_directory hmatch hfound hview).1
  · intro heq
    have htext := congrArg Node.textContent heq
    revert htext
    decide +kernel
  · intro heq
    have htext := congrArg Node.textContent heq
    revert htext
    decide +kernel

end Application

end ViewSchema
