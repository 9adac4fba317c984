import ViewSchema.File.Glob
import ViewSchema.File.Tree
import ViewSchema.Schema.Load

/-!
# Finding schema files

The schema files that paths of a command line stand for: a file for itself, a
directory for the schema files below it in the order of their names, and a
pattern for the schema files that it matches. Files that an exclusion matches do
not count.
-/

namespace ViewSchema

namespace FilePath

/-- The path of a name in a directory. -/
def join (directory name : String) : String :=
  if directory.endsWith "/" then directory ++ name else directory ++ "/" ++ name

/-- Whether a path leads nowhere else than here. -/
def isHere (path : String) : Bool := components path == ["."]

/-- Names sorted by their characters. -/
def sortNames (names : List String) : List String := names.mergeSort fun a b => a ≤ b

/-- No directory lies deeper than this: a path has 4096 bytes at most, and every
component takes at least two of them. -/
def deepest : Nat := 2048

end FilePath

/-- Files that are left out: those that a pattern stands for, or those whose paths
hold a text. -/
inductive Exclusion where
  | glob (glob : Glob)
  | part (text : String)

namespace Exclusion

/-- Read an exclusion. -/
def ofText? (text : String) : Option Exclusion :=
  if Glob.isWild text then (Glob.ofText? text).map glob else some (part text)

def covers (path : String) : Exclusion → Bool
  | glob pattern => pattern.accepts path
  | part text => occursIn text.toList path.toList

end Exclusion

/-- Why files cannot be found. -/
inductive SearchError where
  | badExclusion (text : String)
  | badGlob (text : String)
  | notFound (path : String)

/-- The text of an error. -/
def SearchError.message : SearchError → String
  | badExclusion text => "Invalid --exclude pattern " ++ text
  | badGlob text => "Invalid glob " ++ text
  | notFound path => "Path not found: " ++ path

namespace Files

variable {m : Type → Type} [Monad m]

def isFile (files : Files m) (path : String) : m Bool := do
  return (← files.kind? path) == some .file

def isDirectory (files : Files m) (path : String) : m Bool := do
  return (← files.kind? path) == some .directory

/-- Whether a path leads to a schema file. -/
def isSchemaFile (files : Files m) (path : String) : m Bool := do
  return (SchemaFormat.ofPath? path).isSome && (← files.isFile path)

/-- The paths in a list for which a test holds. -/
def filterPaths (test : String → m Bool) : List String → m (List String)
  | [] => return []
  | path :: rest => do
    let holds ← test path
    let others ← filterPaths test rest
    return if holds then path :: others else others

/-- What each path of a list gives, in order. -/
def gather {α : Type} (find : String → m (List α)) : List String → m (List α)
  | [] => return []
  | path :: rest => do
    let found ← find path
    let others ← gather find rest
    return found ++ others

/-- The files at or below a path, each directory in the order of its names. -/
def below (files : Files m) : Nat → String → m (List String)
  | 0, _ => return []
  | depth + 1, path => do
    match ← files.kind? path with
    | none => return []
    | some .file => return [path]
    | some .directory =>
      let names := FilePath.sortNames (← files.names path)
      gather (files.below depth ∘ FilePath.join path) names

/-! ## Patterns -/

/-- The path of a name in the directory where a search stands. -/
def step (path name : String) : String :=
  if FilePath.isHere path then name else FilePath.join path name

/-- Components that stand for the same number of components as one of them. -/
def collapse (globs : List Glob) : List Glob := globs.dropWhile Glob.isRecursive

/-- The special names that a component can stand for if it starts with a full
stop. -/
def specialNames (glob : Glob) : List String :=
  if glob.tokens.head? = some (.char '.') then ["..", "."].filter glob.accepts else []

/-- The paths that components of a pattern lead to from a directory. -/
def expand (files : Files m) : Nat → List Glob → String → m (List String)
  | 0, _, _ => return []
  | _, [], _ => return []
  | steps + 1, glob :: rest, path => do
    let onward (next : String) : m (List String) :=
      if rest.isEmpty then return [next] else files.expand steps rest next
    match glob.literal? with
    | some name =>
      let next := step path name
      let there ←
        if name == "." || name == ".." then files.isDirectory path
        else pure (← files.kind? next).isSome
      if there then onward next else return []
    | none =>
      if !(← files.isDirectory path) then return []
      else
        let special ← gather (onward ∘ FilePath.join path) (specialNames glob)
        let names := FilePath.sortNames (← files.names path)
        let matching (globs : List Glob) (name next : String) : m (List String) :=
          match globs with
          | [] => return []
          | first :: others =>
            if first.accepts name then
              if others.isEmpty then return [next] else files.expand steps others next
            else return []
        let visit (name : String) : m (List String) := do
          let next := step path name
          if glob.isRecursive then
            let tail := collapse rest
            let here ← matching tail name next
            let deeper ←
              if ← files.isDirectory next then files.expand steps (glob :: tail) next
              else pure []
            return here ++ deeper
          else matching (glob :: rest) name next
        return special ++ (← gather visit names)

/-- The components of a pattern without its root; a slash at the end adds none. -/
def globParts (pattern : String) : List String :=
  let parts := splitString '/' pattern
  let parts := if parts.getLast? == some "" then parts.dropLast else parts
  if pattern.startsWith "/" then parts.dropWhile (· == "") else parts

/-- The files that a pattern stands for. A pattern that ends in a slash stands for
directories. -/
def ofGlob (files : Files m) (pattern : String) : m (Except SearchError (List String)) := do
  let whole := Glob.ofText? pattern
  let parts := (globParts pattern).mapM Glob.ofText?
  match whole, parts with
  | some _, some parts =>
    let root := if pattern.startsWith "/" then "/" else "."
    let found ← files.expand (parts.length + FilePath.deepest) parts root
    let schemas ← filterPaths files.isSchemaFile found
    return .ok (if pattern.endsWith "/" then [] else schemas)
  | _, _ => return .error (.badGlob pattern)

/-! ## Command lines -/

/-- The schema files that one path stands for. -/
def schemasOf (files : Files m) (path : String) : m (Except SearchError (List String)) := do
  if Glob.isWild path then files.ofGlob path
  else
    match ← files.kind? path with
    | some .file => return .ok [path]
    | some .directory =>
      return .ok (← filterPaths files.isSchemaFile (← files.below FilePath.deepest path))
    | none => return .error (.notFound path)

/-- The schema files that several paths stand for, in order. -/
def schemasOfAll (files : Files m) : List String → m (Except SearchError (List String))
  | [] => return .ok []
  | path :: rest => do
    match ← files.schemasOf path with
    | .error e => return .error e
    | .ok found =>
      match ← files.schemasOfAll rest with
      | .error e => return .error e
      | .ok others => return .ok (found ++ others)

/-- Read exclusions. -/
def exclusionsOf (texts : List String) : Except SearchError (List Exclusion) :=
  texts.mapM fun text =>
    match Exclusion.ofText? text with
    | some exclusion => .ok exclusion
    | none => .error (.badExclusion text)

/-- The schema files that paths stand for and no exclusion covers. -/
def collect (files : Files m) (paths exclude : List String) :
    m (Except SearchError (List String)) := do
  match exclusionsOf exclude with
  | .error e => return .error e
  | .ok exclusions =>
    match ← files.schemasOfAll paths with
    | .error e => return .error e
    | .ok found => return .ok (found.filter fun path => !exclusions.any (·.covers path))

end Files

end ViewSchema
