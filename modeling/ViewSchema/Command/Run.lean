import ViewSchema.Command.Basic
import ViewSchema.Compile.Compiler
import ViewSchema.Diff.Report
import ViewSchema.File.Search
import ViewSchema.Node.Html
import ViewSchema.Outline
import ViewSchema.Reference

/-!
# Running commands

Commands carried out on files. What was written before a failure stays written.

Main definitions:

- `Invocation.run` carries a command out.
- `runCommandLine` reads a command line, carries it out, and gives what is written
  and how the program ends.
-/

namespace ViewSchema

/-- Carrying a command out: what is written, and the message of a failure that
ends it. -/
abbrev Running (m : Type → Type) := ExceptT String (StateT String m)

namespace Running

variable {m : Type → Type} [Monad m]

/-- Look at files. -/
def look {α : Type} (action : m α) : Running m α := fun written => do
  let a ← action
  return (.ok a, written)

/-- Write a text. -/
def write (text : String) : Running m Unit := fun written => return (.ok (), written ++ text)

/-- Write a line. -/
def writeLine (text : String) : Running m Unit := write (text ++ "\n")

/-- Fail with a message. -/
def fail {α : Type} (message : String) : Running m α :=
  fun written => return (.error message, written)

/-- Do something with each element of a list, in order. -/
def each {α : Type} (action : α → Running m Unit) : List α → Running m Unit
  | [] => return
  | a :: rest => do
    action a
    each action rest

/-- The schema in a file. `purpose` starts the message if it cannot be had. -/
def load (files : Files m) (purpose path : String) : Running m Json := do
  let content ← look (files.read? path)
  match loadSchema path content with
  | .ok schema => return schema
  | .error _ => fail (purpose ++ " " ++ path)

/-- The value in a file that an option names. -/
def loadOptional (files : Files m) : Option String → Running m (Option Json)
  | none => return none
  | some path => do
    let value ← load files "Failed to load" path
    return some value

/-- The schema files that paths stand for. -/
def collect (files : Files m) (paths exclude : List String) : Running m (List String) := do
  match ← look (files.collect paths exclude) with
  | .ok found => return found
  | .error e => fail e.message

end Running

namespace RenderOptions

variable {m : Type → Type} [Monad m]

/-- The viewport, if its width is given. -/
def viewport (options : RenderOptions) : Option Size :=
  options.width.map fun width => ⟨width, options.height.getD width⟩

/-- The props of the compiler. -/
def props (options : RenderOptions) : CompilerProps :=
  { name := options.name
    children := if options.childrenIn.isSome then options.children.map .ofText else []
    childrenIn := options.childrenIn
    test := options.test }

/-- The HTML of a schema under overrides and with texts. -/
def html (options : RenderOptions) (schema : Json) (mutations : MutationMap)
    (dictionary : Dictionary) : String :=
  let compiler : Compiler :=
    { registry := .standard
      props := options.props
      mutate := MutationMap.hook mutations
      translate := dictionary.translate?
      formatter := ⟨options.lang⟩ }
  let compilation := compiler.buildContent (MutationMap.budget mutations schema) (.schema schema)
    none
  let node := compilation.value?.getD .nothing
  let context : RenderContext := ⟨.standard, options.viewport⟩
  if options.pretty then Html.renderPretty context node else Html.render context node

/-- The HTML of a schema file. -/
def renderFile (options : RenderOptions) (files : Files m) (path : String) :
    Running m String := do
  let schema ← Running.load files "Failed to load schema" path
  let data ← Running.loadOptional files options.data
  let schema := match data with
    | some context => Reference.resolve context schema
    | none => schema
  let mutations ← match ← Running.loadOptional files options.mutations with
    | some (.object map) => pure map
    | some _ => Running.fail "--mutations must be a map of section name to props"
    | none => pure []
  let dictionaries ← Running.loadOptional files options.dictionaries
  let dictionary := Dictionary.ofLang options.lang options.fallbackLang
  let dictionary := match dictionaries with
    | some tables => dictionary.addTables tables
    | none => dictionary
  return options.html schema mutations dictionary

end RenderOptions

namespace Command

variable {m : Type → Type} [Monad m]

/-- Write the HTML of a file; several files are told apart by comments. -/
def renderOne (files : Files m) (options : RenderOptions) (several : Bool) (path : String) :
    Running m Unit := do
  let html ← options.renderFile files path
  if several then Running.writeLine ("<!-- " ++ path ++ " -->")
  Running.writeLine html

/-- The line of a section. -/
def sectionLine (found : Outline.SectionMatch) : String :=
  "  " ++ found.path ++ " " ++ found.name ++ " (" ++ found.component ++ ")"
    ++ if found.active then "" else " [inactive]"

/-- Write the sections of a file. -/
def inspectOne (files : Files m) (component : Option String) (path : String) :
    Running m Unit := do
  let schema ← Running.load files "Failed to load" path
  Running.writeLine (path ++ ":")
  Running.each (fun found => Running.writeLine (sectionLine found))
    (Outline.findSections schema component)

/-- A schema of a comparison. -/
def loadCompared (files : Files m) (data : Option Json) (path : String) : Running m Json := do
  let schema ← Running.load files "Failed to load schema" path
  match data with
  | some context => return Reference.resolve context schema
  | none => return schema

/-- A kind in a column of twelve characters. -/
def kindColumn (kind : RegistryKind) : String :=
  let name := kind.name
  name ++ String.ofList (List.replicate (12 - name.length) ' ')

/-- The line of a registered component. -/
def componentLine (entry : RegistryKind × String) : String :=
  kindColumn entry.1 ++ " " ++ entry.2
    ++ if Registry.standard.isWrapperExcluded entry.2 then " (no wrapper)" else ""

/-- The breakpoint table that an option gives. -/
def tableOf (text : Option String) : Running m BreakpointTable :=
  match text with
  | none => return .standard
  | some text =>
    match parseBreakpoints text with
    | .ok table => return table
    | .error _ => Running.fail "Invalid --table"

/-- Carry a command out. -/
def run (files : Files m) (exclude : List String) (summary : Bool) : Command → Running m Unit
  | .render paths options => do
    let found ← Running.collect files paths exclude
    if found.isEmpty then Running.fail "No schema files found in the given paths"
    else Running.each (renderOne files options (1 < found.length)) found
  | .inspect paths component => do
    let found ← Running.collect files paths exclude
    Running.each (inspectOne files component) found
  | .diff old new data context => do
    let data ← Running.loadOptional files data
    let before ← loadCompared files data old
    let after ← loadCompared files data new
    let diff := SchemaDiff.ofSchemas context before after
    if diff.isEmpty then Running.writeLine "No differences"
    else Running.write (diff.report old new)
    if summary then Running.writeLine ("\n" ++ diff.stats.text)
  | .breakpoint width height table => do
    let table ← tableOf table
    let orientation := Orientation.ofSize ⟨width, height.getD width⟩
    Running.writeLine ((table.resolveOrFirst? width).getD "-" ++ " " ++ orientation.name)
  | .components =>
    Running.each (fun entry => Running.writeLine (componentLine entry)) Registry.standard.listing

end Command

/-- How a program ends: its exit code, what it has written, and the message of a
failure. -/
structure CommandResult where
  code : Nat
  written : String
  error : Option String

/-- The exit code after a mistake in usage. -/
def usageCode : Nat := 2

/-- Carry a command out. -/
def Invocation.run {m : Type → Type} [Monad m] (invocation : Invocation) (files : Files m) :
    m CommandResult := do
  let (result, written) ←
    (invocation.command.run files invocation.exclude invocation.summary).run.run ""
  match result with
  | .ok () => return ⟨0, written, none⟩
  | .error message => return ⟨1, written, some message⟩

/-- Read a command line and carry it out. -/
def runCommandLine {m : Type → Type} [Monad m] (files : Files m) (args : List String) :
    m CommandResult :=
  match Invocation.ofArguments? args with
  | none => return ⟨usageCode, "", none⟩
  | some invocation => invocation.run files

end ViewSchema
