import ViewSchema.Text.Split

/-!
# Files

What a program needs to know of files: what a path leads to, the names in a
directory, and the text of a file. A tree of files in memory has it all.
-/

namespace ViewSchema

/-- What a path leads to. -/
inductive FileKind where
  | file
  | directory
deriving DecidableEq

/-- Access to files. -/
structure Files (m : Type → Type) where
  /-- What a path leads to, if to anything. -/
  kind? : String → m (Option FileKind)
  /-- The text of a file, if it can be read. -/
  read? : String → m (Option String)
  /-- The names in a directory, in any order. -/
  names : String → m (List String)

/-- Files in memory with their paths, seen from the directory that they are in.
Every directory on the way to a file exists. -/
structure FileTree where
  files : List (String × String)

namespace FileTree

/-- The texts of the files by their components. -/
def entries (tree : FileTree) : List (List String × String) :=
  tree.files.map fun (path, text) => (pathSegments path, text)

/-- What a place leads to. -/
def kindAt? (tree : FileTree) (place : List String) : Option FileKind :=
  if place.isEmpty then some .directory
  else if tree.entries.any (·.1 == place) then some .file
  else if tree.entries.any (place.isPrefixOf ·.1) then some .directory
  else none

/-- The place that components lead to from another one, which has to be a directory
as long as components are left. -/
def follow? (tree : FileTree) (place : List String) : List String → Option (List String)
  | [] => some place
  | part :: rest =>
    if tree.kindAt? place = some .directory then
      if part = "" ∨ part = "." then follow? tree place rest
      else if part = ".." then
        if place.isEmpty then none else follow? tree place.dropLast rest
      else
        let next := place ++ [part]
        if (tree.kindAt? next).isSome then follow? tree next rest else none
    else none

/-- The place that a path leads to, if there is something. -/
def place? (tree : FileTree) (path : String) : Option (List String) :=
  if path = "" ∨ path.startsWith "/" then none else tree.follow? [] (splitString '/' path)

/-- The text of the file at a path. -/
def read? (tree : FileTree) (path : String) : Option String :=
  (tree.place? path).bind fun place => tree.entries.lookup place

/-- The names in the directory at a path. -/
def names (tree : FileTree) (path : String) : List String :=
  match tree.place? path with
  | none => []
  | some place =>
    (tree.entries.filterMap fun (parts, _) =>
      if place.isPrefixOf parts then parts[place.length]? else none).eraseDups

/-- Access to the files of a tree. -/
def access (tree : FileTree) : Files Id where
  kind? path := (tree.place? path).bind tree.kindAt?
  read? := tree.read?
  names := tree.names

end FileTree

end ViewSchema
