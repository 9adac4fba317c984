/-!
# Arguments

Arguments of a command line divided into options and operands. Options have long
names behind two hyphens, and some have a letter behind one hyphen as well. A
value follows its option as the next argument, or in the same one: behind an
equals sign, or right behind the letter. Two hyphens alone make operands of all
that follows them.
-/

namespace ViewSchema

/-- What an option takes. -/
inductive OptionShape where
  /-- No value, and at most once. -/
  | flag
  /-- One value, and at most once. -/
  | single
  /-- One value each time. -/
  | repeated
  /-- All values up to the next option. -/
  | many
deriving DecidableEq

/-- An option that a command has. -/
structure OptionSpec where
  name : String
  letter : Option Char
  shape : OptionShape

/-- An option as it was given, with its values. -/
structure GivenOption where
  spec : OptionSpec
  values : List String

structure Arguments where
  options : List GivenOption
  operands : List String

namespace Arguments

/-- What one argument is. -/
inductive Token where
  | endOfOptions
  | long (name : String) (value : Option String)
  | short (letter : Char) (value : Option String)
  | plain (text : String)

/-- A text divided at its first equals sign. -/
def splitValue (cs : List Char) : String × Option String :=
  match cs.dropWhile (· != '=') with
  | _ :: value => (String.ofList (cs.takeWhile (· != '=')), some (String.ofList value))
  | [] => (String.ofList cs, none)

/-- A value right behind a letter. -/
def attached? : List Char → Option String
  | [] => none
  | '=' :: value => some (String.ofList value)
  | value => some (String.ofList value)

/-- Read one argument. A hyphen alone is a plain text. -/
def Token.ofText (text : String) : Token :=
  match text.toList with
  | ['-', '-'] => .endOfOptions
  | '-' :: '-' :: rest => .long (splitValue rest).1 (splitValue rest).2
  | '-' :: letter :: rest => .short letter (attached? rest)
  | _ => .plain text

/-- Whether an option that has values can take another one. -/
def takesMore (given : GivenOption) : Bool :=
  match given.spec.shape with
  | .flag => false
  | .single | .repeated => given.values.isEmpty
  | .many => true

/-- Whether an option has the values that it needs. -/
def isComplete (given : GivenOption) : Bool :=
  match given.spec.shape with
  | .flag | .many => true
  | .single | .repeated => !given.values.isEmpty

/-- An option with the value in its own argument. A flag has none. -/
def given? (spec : Option OptionSpec) (value : Option String) : Option GivenOption :=
  match spec, value with
  | none, _ => none
  | some spec, none => some ⟨spec, []⟩
  | some spec, some text => if spec.shape = .flag then none else some ⟨spec, [text]⟩

/-- How far reading has come: what has been read, and the option that waits for
values. -/
structure Progress where
  read : Arguments
  waiting : Option GivenOption

namespace Progress

/-- Nothing read. -/
def start : Progress := ⟨⟨[], []⟩, none⟩

/-- Close the option that waits for values. -/
def close? (p : Progress) : Option Arguments :=
  match p.waiting with
  | none => some p.read
  | some given =>
    if isComplete given then some { p.read with options := p.read.options ++ [given] } else none

/-- A new option; one with a value in its own argument waits for no other. -/
def open? (p : Progress) (given : Option GivenOption) : Option Progress :=
  match p.close?, given with
  | some read, some given =>
    if given.values.isEmpty && takesMore given then some ⟨read, some given⟩
    else some ⟨{ read with options := read.options ++ [given] }, none⟩
  | _, _ => none

end Progress

/-- Read arguments. `stop` is what happens at an operand in the midst of options: it
is one of many, or it ends the reading and is left with what follows. -/
def scan (specs : List OptionSpec) (stop : Bool) (p : Progress) :
    List String → Option (Arguments × List String)
  | [] => p.close?.map (·, [])
  | text :: rest =>
    match Token.ofText text with
    | .endOfOptions =>
      if stop then none
      else p.close?.map fun read => ({ read with operands := read.operands ++ rest }, [])
    | .long name value =>
      (p.open? (given? (specs.find? (·.name == name)) value)).bind (scan specs stop · rest)
    | .short letter value =>
      (p.open? (given? (specs.find? (·.letter == some letter)) value)).bind (scan specs stop · rest)
    | .plain text =>
      match p.waiting with
      | some given =>
        let given := { given with values := given.values ++ [text] }
        if takesMore given then scan specs stop { p with waiting := some given } rest
        else
          let options := p.read.options ++ [given]
          scan specs stop ⟨{ p.read with options }, none⟩ rest
      | none =>
        if stop then some (p.read, text :: rest)
        else
          scan specs stop { p with read.operands := p.read.operands ++ [text] } rest

/-- The times that an option was given. -/
def times (args : Arguments) (name : String) : List GivenOption :=
  args.options.filter (·.spec.name == name)

/-- Whether options that may be given once are. -/
def isProper (args : Arguments) : Bool :=
  args.options.all fun given =>
    match given.spec.shape with
    | .flag | .single => (args.times given.spec.name).length == 1
    | .repeated | .many => true

/-- Read all arguments of a command. -/
def ofList? (specs : List OptionSpec) (texts : List String) : Option Arguments :=
  ((scan specs false .start texts).map Prod.fst).filter isProper

/-- Read options up to the first operand, which is left with what follows it. -/
def ofFront? (specs : List OptionSpec) (texts : List String) :
    Option (Arguments × List String) :=
  (scan specs true .start texts).filter (·.1.isProper)

/-- Whether an option was given. -/
def has (args : Arguments) (name : String) : Bool := !(args.times name).isEmpty

/-- All values of an option. -/
def values (args : Arguments) (name : String) : List String :=
  (args.times name).flatMap GivenOption.values

/-- The value of an option. -/
def value? (args : Arguments) (name : String) : Option String := (args.values name).head?

end Arguments

end ViewSchema
