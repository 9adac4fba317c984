import ViewSchema.Application.Page
import ViewSchema.Proofs.Json.Equality
import ViewSchema.Proofs.Reference.Agreement
import ViewSchema.Proofs.State.Transparency

/-!
# What is shown and what was looked up

Views refer to stored values as they are in memory, and looking a value up may put it there.
So it may change what is shown, but only where a reference leads to that value, or to all
stored values at once, and only if the value was in a storage and not in memory.

Main results:

- Definition `Application.Hydrates`: looking a key up puts its value into memory.
- Definition `Reference.leadsToStored`: where a reference leads to the value of a key.
- Theorem `Application.shown_get`: when pages and compiled views stay the same.
- Theorem `Application.exists_shown_get_ne`: a page of a new process that does not.
-/

namespace ViewSchema

/-! ## Where references lead -/

namespace Reference

variable {text key : String}

/-- Whether a reference leads to the stored values as a whole, or to that of a key or into it. -/
def leadsToStored (key text : String) : Bool :=
  match steps? text with
  | some (root :: rest) =>
    String.ofList root == "state" && (rest.head?.map String.ofList).all (· == key)
  | _ => false

end Reference

/-! ## Memory after a look -/

/-- Looking a value up leaves memory as it is, or puts the value there. -/
theorem Store.memory_get (s : Store) (key : String) :
    (s.get key).1.memory = s.memory ∨
      s.memory.lookup key = none ∧ ∃ value, (s.get key).2 = .ok (some value) ∧
        (s.get key).1.memory = Fields.set s.memory key value := by
  cases hmemory : s.memory.lookup key with
  | some value =>
    rw [get_of_some hmemory]
    exact .inl rfl
  | none =>
    rw [get_of_none hmemory]
    cases hstored : (s.stored key).2 with
    | error error => exact .inl (memory_stored s key)
    | ok found =>
      cases found with
      | none => exact .inl (memory_stored s key)
      | some value =>
        exact .inr ⟨rfl, value, rfl, congrArg (Fields.set · key value) (memory_stored s key)⟩

namespace Application

variable {app : Application} {store : Store} {key : String}

/-- Looking the key up puts its value into memory. -/
def Hydrates (app : Application) (key : String) : Prop :=
  app.store.memory.lookup key = none ∧ ∃ value, (app.get key).2 = .ok (some value)

/-- A reference that does not lead to a key leads to the same whatever is remembered for it. -/
theorem lookup?_context_set {remembered : Json} {text : String}
    (hmemory : store.memory = Fields.set app.store.memory key remembered)
    (htext : Reference.leadsToStored key text = false) (root : String) (value : Json) :
    Reference.lookup? (({ app with store } : Application).context root value) text =
      Reference.lookup? (app.context root value) text := by
  rw [Reference.lookup?_eq_steps?, Reference.lookup?_eq_steps?]
  cases hsteps : Reference.steps? text with
  | none => rfl
  | some steps =>
    cases steps with
    | nil => exact absurd hsteps (Reference.steps?_ne_nil text)
    | cons first rest =>
      simp only [context, Option.bind_some, Json.steps?, Json.step?, Fields.lookup_set,
        Fields.lookup_cons]
      by_cases hroot : String.ofList first = root
      · rw [if_pos hroot, if_pos hroot]
      rw [if_neg hroot, if_neg hroot]
      by_cases hdefinitions : String.ofList first = "definitions"
      · rw [if_pos hdefinitions, if_pos hdefinitions]
      rw [if_neg hdefinitions, if_neg hdefinitions]
      by_cases hstate : String.ofList first = "state"
      · simp only [Reference.leadsToStored, hsteps, hstate, beq_self_eq_true, Bool.true_and]
          at htext
        cases rest with
        | nil => cases htext
        | cons second others =>
          have hother : String.ofList second ≠ key := by
            simpa using htext
          simp only [if_pos hstate, Option.bind_some, Json.steps?, Json.step?, Store.snapshot,
            hmemory, Fields.lookup_set, if_neg hother]
      · rw [if_neg hstate, if_neg hstate]

/-- A view that does not lead to a key is compiled alike before and after the key is looked up,
as is any other view if its value was there before, or is nowhere. -/
theorem build_get (key : String) {view value : Json} {root : String}
    (h : app.Hydrates key → ∀ text, Reference.Reads (app.context root value) view text →
      Reference.leadsToStored key text = false) (props : CompilerProps) :
    (app.get key).1.build view root value props = app.build view root value props := by
  have hresolve : Reference.resolve ((app.get key).1.context root value) view =
      Reference.resolve (app.context root value) view := by
    rcases app.store.memory_get key with hsame | ⟨hnone, remembered, hfound, hmemory⟩
    · have hcontext : (app.get key).1.context root value = app.context root value := by
        simp only [context, get, Store.snapshot, hsame]
      rw [hcontext]
    · have hread := h ⟨hnone, remembered, hfound⟩
      exact (Reference.resolve_eq_of_reads fun text htext =>
        (lookup?_context_set hmemory (hread text htext) root value).symm).symm
  exact congrArg (app.compilerWith props).compile hresolve

/-- A page, and a view compiled with data, show the same before and after a key is looked up, if
nothing that is read for them leads to the key or to all stored values at once.  It need not be
so where a value is in a storage and not yet in memory; in any other case nothing needs to be
known of the view. -/
theorem shown_get (app : Application) (key : String) :
    (∀ path,
      (app.Hydrates key → ∀ found view, app.match? path = some found →
        app.viewFor? found.route = some view →
        ∀ text, Reference.Reads (app.context "params" (.object found.params)) view text →
          Reference.leadsToStored key text = false) →
      (app.get key).1.page path = app.page path) ∧
    ∀ view data,
      (app.Hydrates key → ∀ text, Reference.Reads (app.context "data" data) view text →
        Reference.leadsToStored key text = false) →
      (app.get key).1.compile view data = app.compile view data := by
  constructor
  · intro path hpath
    have hmatch : (app.get key).1.match? path = app.match? path := rfl
    unfold page
    rw [hmatch]
    cases hfound : app.match? path with
    | none => rfl
    | some found =>
      have hview : (app.get key).1.viewFor? found.route = app.viewFor? found.route := rfl
      simp only [hview]
      cases hown : app.viewFor? found.route with
      | none => rfl
      | some view =>
        exact build_get key (fun hhydrates => hpath hhydrates found view hfound hown) _
  · intro view data hdata
    exact build_get key hdata _

/-- Where seeding, the base address and the stored language are in order, an application is set
up. -/
theorem start_eq {config : AppConfig} {directory : StateDirectory} {base : Option Url}
    {lang : Option Json}
    (hseed : ((Store.opened directory).seed config.initialState).2 = .ok ())
    (hbase : baseOf config = .ok base)
    (hlang : (((Store.opened directory).seed config.initialState).1.get langKey).2 = .ok lang) :
    start config directory = .ok
      { config
        registry := .standard
        dictionary := dictionaryOf config ((lang.bind Json.string?).getD config.lang)
        store := (((Store.opened directory).seed config.initialState).1.get langKey).1
        fetcher := fetcherOf config base
        routes := .ofConfigs config.routes } := by
  unfold start
  rcases hseeded : (Store.opened directory).seed config.initialState with ⟨store, seeded⟩
  rw [hseeded] at hseed hlang
  rcases hgot : store.get langKey with ⟨next, found⟩
  simp only [hgot] at hlang ⊢
  subst hlang
  cases hseed
  rw [hbase]
  rfl

/-- A page that shows a stored setting, and one that shows something else. -/
def themedConfig : AppConfig :=
  { AppConfig.standard with
    routes := [⟨"/", some "home", none, true, none, [], []⟩,
      ⟨"/about", some "about", none, true, none, [], []⟩]
    views := [("home", .object [("name", .string "home"), ("content", .string "$state/theme")]),
      ("about", .object [("name", .string "about"), ("content", .string "$state/user")])]
    definitions := [("guest", .string "nobody")]
    initialState := [("user", .string "$definitions/guest")] }

/-- A directory in which the setting was stored before. -/
def themedDirectory : StateDirectory := .holding (some "\x7b\"goat:theme\":\"dark\"\x7d")

/-- The application in a new process. -/
def themed : Application where
  config := themedConfig
  registry := .standard
  dictionary := dictionaryOf themedConfig themedConfig.lang
  store := (((Store.opened themedDirectory).seed themedConfig.initialState).1.get langKey).1
  fetcher := fetcherOf themedConfig none
  routes := .ofConfigs themedConfig.routes

theorem start_themed : start themedConfig themedDirectory = .ok themed := by
  have hseed : ((Store.opened themedDirectory).seed themedConfig.initialState).2 = .ok () := by
    decide +kernel
  have hbase : baseOf themedConfig = .ok none := rfl
  have hlang : (((Store.opened themedDirectory).seed themedConfig.initialState).1.get
      langKey).2 = .ok none := by
    decide +kernel
  exact start_eq hseed hbase hlang

/-- The setting is in the file and not in memory. -/
theorem hydrates_themed : themed.Hydrates "theme" :=
  ⟨by decide +kernel, .string "dark", by decide +kernel⟩

/-- Other stored values may be shown, also behind a reference in a definition or in data. -/
theorem shown_get_themed :
    start themedConfig themedDirectory = .ok themed ∧ themed.Hydrates "theme" ∧
    (themed.page "/about").textContent = "nobody" ∧
    (themed.get "theme").1.page "/about" = themed.page "/about" ∧
    (themed.get "theme").1.compile (.string "$data/by") (.object [("by", .string "$state/user")]) =
      themed.compile (.string "$data/by") (.object [("by", .string "$state/user")]) := by
  have hlead : ∀ text ∈ ["about", "$data/by", "$state/user", "$definitions/guest", "nobody"],
      Reference.leadsToStored "theme" text = false := by
    decide +kernel
  obtain ⟨hpage, hcompile⟩ := shown_get themed "theme"
  refine ⟨start_themed, hydrates_themed, by decide +kernel, hpage "/about" ?_, hcompile _ _ ?_⟩
  · intro _ found view hfound hview text hread
    have habout : (themed.match? "/about").map (fun found =>
        (found.params, themed.viewFor? found.route)) = some ([], some (.object
          [("name", .string "about"), ("content", .string "$state/user")])) := by
      decide +kernel
    rw [hfound, Option.map_some, hview] at habout
    obtain ⟨hparams, hown⟩ := Prod.mk.inj (Option.some.inj habout)
    rw [hparams, Option.some.inj hown] at hread
    exact hlead text (hread.mem (by decide +kernel) (by decide +kernel))
  · intro _ text hread
    exact hlead text (hread.mem (by decide +kernel) (by decide +kernel))

/-- The page of a stored setting shows the reference as it is written, until someone looks the
setting up. -/
theorem exists_shown_get_ne :
    ∃ app, start themedConfig themedDirectory = .ok app ∧
      (app.get "theme").2 = .ok (some (.string "dark")) ∧
      (app.page "/").textContent = "$state/theme" ∧
      ((app.get "theme").1.page "/").textContent = "dark" ∧
      (app.get "theme").1.page "/" ≠ app.page "/" := by
  have hbefore : (themed.page "/").textContent = "$state/theme" := by decide +kernel
  have hafter : ((themed.get "theme").1.page "/").textContent = "dark" := by decide +kernel
  refine ⟨themed, start_themed, by decide +kernel, hbefore, hafter, ?_⟩
  intro heq
  rw [heq, hbefore] at hafter
  revert hafter
  decide

end Application

end ViewSchema
