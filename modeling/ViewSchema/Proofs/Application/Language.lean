import ViewSchema.Proofs.Application.Hydration
import ViewSchema.Proofs.State.Atomicity

/-!
# Switching the language

A switch takes effect before the language is stored, and storing it may fail.  The layers of the
store then hold what they held, but all that is translated and shown from there on is in the new
language, while a new process would begin in the old one.

Main results:

- Theorem `Application.page_of_memory`: of the store, pages show what is in memory.
- Theorem `Application.setLang_failed`: what a switch that fails leaves as it was.
- Theorem `Application.exists_setLang_failed`: an application that shows the new language.
-/

namespace ViewSchema

namespace Application

variable {app : Application} {lang : String} {e : StorageError}

/-- An application in another language. -/
def speaking (app : Application) (lang : String) : Application :=
  { app with dictionary := app.dictionary.setLang lang }

/-- Of the store, pages show what is in memory. -/
theorem page_of_memory (app : Application) {store : Store}
    (h : store.memory = app.store.memory) (path : String) :
    ({ app with store } : Application).page path = app.page path := by
  have hbuild : ∀ view root value props, ({ app with store } : Application).build view root value
      props = app.build view root value props := by
    intro view root value props
    simp only [build, context, compilerWith, Application.lang, Store.snapshot, h]
  have hmatch : ({ app with store } : Application).match? path = app.match? path := rfl
  unfold page
  rw [hmatch]
  simp only [hbuild]
  rfl

/-- A switch that fails leaves the layers of the store as they were. -/
theorem sameLayers_setLang (h : (app.setLang lang).2 = .error e) :
    Store.SameLayers app.store (app.setLang lang).1.store := by
  have hfailed : (app.store.write langKey (some (.string lang)) (.announced (some .local))).2 =
      .error e := h
  exact (Store.fails_write hfailed).sameLayers

/-- A switch that cannot be stored announces nothing and leaves memory, the session and the file
as they were.  The application speaks the new language nevertheless, in translations and on
pages, so that all is as before exactly if that is the language it spoke already. -/
theorem setLang_failed (h : (app.setLang lang).2 = .error e) :
    Store.SameLayers app.store (app.setLang lang).1.store ∧
    (app.setLang lang).1.lang = lang ∧
    (∀ text, (app.setLang lang).1.translate text = (app.speaking lang).translate text) ∧
    (∀ path, (app.setLang lang).1.page path = (app.speaking lang).page path) ∧
    (((app.setLang lang).1.lang = app.lang ∧
      (∀ text, (app.setLang lang).1.translate text = app.translate text) ∧
      ∀ path, (app.setLang lang).1.page path = app.page path) ↔ lang = app.lang) := by
  have hlayers := sameLayers_setLang h
  have hpage : ∀ path, (app.setLang lang).1.page path = (app.speaking lang).page path :=
    page_of_memory (app.speaking lang) hlayers.memory
  refine ⟨hlayers, rfl, fun _ => rfl, hpage, fun hsame => hsame.1, ?_⟩
  rintro rfl
  exact ⟨rfl, fun _ => rfl, hpage⟩

/-- A page of one text in two languages. -/
def greetingConfig : AppConfig :=
  { AppConfig.standard with
    lang := "en"
    dictionaries := [("de", .object [("Welcome", .string "Willkommen")])]
    routes := [⟨"/", some "home", none, true, none, [], []⟩]
    views := [("home", .object [("name", .string "home"), ("content", .string "Welcome")])] }

/-- A directory that is a file itself. -/
def blockedDirectory : StateDirectory := ⟨none, false, some .directoryIsFile⟩

/-- The application on that directory. -/
def greeting : Application where
  config := greetingConfig
  registry := .standard
  dictionary := dictionaryOf greetingConfig greetingConfig.lang
  store := (((Store.opened blockedDirectory).seed greetingConfig.initialState).1.get langKey).1
  fetcher := fetcherOf greetingConfig none
  routes := .ofConfigs greetingConfig.routes

theorem start_greeting : start greetingConfig blockedDirectory = .ok greeting := by
  have hseed : ((Store.opened blockedDirectory).seed greetingConfig.initialState).2 = .ok () := by
    decide +kernel
  have hbase : baseOf greetingConfig = .ok none := rfl
  have hlang : (((Store.opened blockedDirectory).seed greetingConfig.initialState).1.get
      langKey).2 = .ok none := by
    decide +kernel
  exact start_eq hseed hbase hlang

/-- A switch that is answered with an error, after which the application translates and shows its
page in the new language. -/
theorem exists_setLang_failed :
    ∃ app, start greetingConfig blockedDirectory = .ok app ∧
      (app.setLang "de").2 = .error .unwritable ∧
      (app.setLang "de").1.lang ≠ app.lang ∧
      app.translate "Welcome" = "Welcome" ∧
      (app.setLang "de").1.translate "Welcome" = "Willkommen" ∧
      (app.page "/").textContent = "Welcome" ∧
      ((app.setLang "de").1.page "/").textContent = "Willkommen" := by
  refine ⟨greeting, start_greeting, rfl, ?_, ?_, ?_, ?_, ?_⟩ <;> decide +kernel

end Application

end ViewSchema
