import ViewSchema.Text.Split

/-!
# File paths

Slash-separated paths of files: their components, and the extension of the last
one. Empty components and `.` components do not count, except for a leading `.`.
-/

namespace ViewSchema

namespace FilePath

/-- The components of a path without its root. -/
def components (path : String) : List String :=
  match splitString '/' path with
  | [] => []
  | first :: rest =>
    let kept := rest.filter fun part => !part.isEmpty && part != "."
    if first.isEmpty then kept else first :: kept

/-- The last component, if it names something. -/
def fileName? (path : String) : Option String :=
  match (components path).getLast? with
  | some name => if name = "." || name = ".." then none else some name
  | none => none

/-- What follows the last point of a name, unless the point is the first
character. -/
def extensionOf? (name : String) : Option String :=
  match name.toList.reverse.span (· != '.') with
  | (extension, '.' :: _ :: _) => some (String.ofList extension.reverse)
  | _ => none

/-- The extension of the last component. -/
def extension? (path : String) : Option String := (fileName? path).bind extensionOf?

end FilePath

end ViewSchema
