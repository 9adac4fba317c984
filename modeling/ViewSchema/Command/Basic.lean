import ViewSchema.Command.Arguments
import ViewSchema.Number.Decimal

/-!
# Commands

What the program can be asked to do, and how a command line says so.

Main definitions:

- `Invocation.ofArguments?` reads a command line; one that it cannot read is a
  mistake in usage.
-/

namespace ViewSchema

/-- How schemas are rendered. -/
structure RenderOptions where
  /-- The name of the root, which manages every section that names no other. -/
  name : String
  /-- A file with the data that references lead to. -/
  data : Option String
  /-- A file with overrides by section name. -/
  mutations : Option String
  /-- A file with texts by language. -/
  dictionaries : Option String
  lang : String
  fallbackLang : Option String
  /-- Mark wrappers, and sections without one. -/
  test : Bool
  width : Option Nat
  /-- The height of the viewport; the width if left out. -/
  height : Option Nat
  childrenIn : Option String
  /-- Texts added to the section that `childrenIn` names. -/
  children : List String
  /-- One node a line, indented. -/
  pretty : Bool

inductive Command where
  | render (paths : List String) (options : RenderOptions)
  | inspect (paths : List String) (component : Option String)
  | diff (old new : String) (data : Option String) (context : Nat)
  | breakpoint (width : Nat) (height : Option Nat) (table : Option String)
  | components

/-- A command with the options that all commands have. -/
structure Invocation where
  command : Command
  /-- Files that are left out. -/
  exclude : List String
  /-- Add a summary to a comparison. -/
  summary : Bool

namespace Command

/-! ## Options -/

def flag (name : String) : OptionSpec := ⟨name, none, .flag⟩

def single (name : String) : OptionSpec := ⟨name, none, .single⟩

/-- The options of every command. -/
def commonOptions : List OptionSpec := [⟨"exclude", none, .many⟩, flag "summary"]

def renderOptions : List OptionSpec :=
  commonOptions ++
    [single "name", single "data", single "mutations", single "dict", single "lang",
      single "fallback-lang", flag "test", single "width", single "height",
      single "children-in", ⟨"child", none, .repeated⟩, flag "pretty"]

def inspectOptions : List OptionSpec := commonOptions ++ [⟨"component", some 'c', .single⟩]

def diffOptions : List OptionSpec := commonOptions ++ [single "data", single "context"]

def breakpointOptions : List OptionSpec :=
  commonOptions ++ [single "width", single "height", single "table"]

/-! ## Values -/

/-- A number in digits, possibly behind a plus sign, below a bound. -/
def number? (bound : Nat) (text : String) : Option Nat :=
  let digits := match text.toList with
    | '+' :: digits => digits
    | digits => digits
  if digits.isEmpty || !digits.all Char.isDigit then none
  else if ofDigits digits < bound then some (ofDigits digits) else none

/-- A length in pixels. Minus zero is zero. -/
def length? (text : String) : Option Nat :=
  match text.toList with
  | '-' :: '0' :: rest => if rest.all (· == '0') then some 0 else none
  | _ => number? (Nat.pow 2 32) text

/-- A number of lines. -/
def lineCount? (text : String) : Option Nat := number? (Nat.pow 2 64) text

/-- The path of a file, which is not empty. -/
def path? (text : String) : Option String := if text = "" then none else some text

/-- An option that may be left out, and whose value must be readable. -/
def optional? {α : Type} (args : Arguments) (name : String) (read : String → Option α) :
    Option (Option α) :=
  match args.value? name with
  | none => some none
  | some text => (read text).map some

/-! ## Reading -/

def renderOf? (args : Arguments) : Option Command := do
  let paths ← args.operands.mapM path?
  let data ← optional? args "data" path?
  let mutations ← optional? args "mutations" path?
  let dictionaries ← optional? args "dict" path?
  let width ← optional? args "width" length?
  let height ← optional? args "height" length?
  if paths.isEmpty then none
  else
    some <| .render paths
      { name := (args.value? "name").getD "app", data, mutations, dictionaries
        lang := (args.value? "lang").getD "en", fallbackLang := args.value? "fallback-lang"
        test := args.has "test", width, height, childrenIn := args.value? "children-in"
        children := args.values "child", pretty := args.has "pretty" }

def inspectOf? (args : Arguments) : Option Command := do
  let paths ← args.operands.mapM path?
  if paths.isEmpty then none else some (.inspect paths (args.value? "component"))

def diffOf? (args : Arguments) : Option Command := do
  let data ← optional? args "data" path?
  let context ← optional? args "context" lineCount?
  match ← args.operands.mapM path? with
  | [old, new] => some (.diff old new data (context.getD 3))
  | _ => none

def breakpointOf? (args : Arguments) : Option Command := do
  let width ← (args.value? "width").bind length?
  let height ← optional? args "height" length?
  if args.operands.isEmpty then some (.breakpoint width height (args.value? "table")) else none

def componentsOf? (args : Arguments) : Option Command :=
  if args.operands.isEmpty then some .components else none

/-- The options and the reader of a command. -/
def reader? : String → Option (List OptionSpec × (Arguments → Option Command))
  | "render" => some (renderOptions, renderOf?)
  | "inspect" => some (inspectOptions, inspectOf?)
  | "diff" => some (diffOptions, diffOf?)
  | "breakpoint" => some (breakpointOptions, breakpointOf?)
  | "components" => some (commonOptions, componentsOf?)
  | _ => none

end Command

namespace Invocation

/-- Read a command line. Exclusions behind the command go before those in front of
it. -/
def ofArguments? (texts : List String) : Option Invocation := do
  let (front, rest) ← Arguments.ofFront? Command.commonOptions texts
  match rest with
  | [] => none
  | name :: others =>
    let (specs, read) ← Command.reader? name
    let args ← Arguments.ofList? specs others
    let command ← read args
    some
      { command
        exclude := (if args.has "exclude" then args else front).values "exclude"
        summary := front.has "summary" || args.has "summary" }

end Invocation

end ViewSchema
