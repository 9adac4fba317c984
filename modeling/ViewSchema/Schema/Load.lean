import ViewSchema.Breakpoint
import ViewSchema.File.Path
import ViewSchema.Json.Reader
import ViewSchema.Json.Text
import ViewSchema.Yaml.Value

/-!
# Reading schemas

Schemas and breakpoint tables as text. The format of a schema file follows from
its extension.
-/

namespace ViewSchema

inductive SchemaFormat where
  | json
  | yaml
deriving DecidableEq, Repr

namespace SchemaFormat

/-- The format that an extension stands for, in any case. -/
def ofPath? (path : String) : Option SchemaFormat :=
  match (FilePath.extension? path).map String.toLower with
  | some "json" => some json
  | some "yaml" => some yaml
  | some "yml" => some yaml
  | _ => none

end SchemaFormat

/-- Why a schema or a table cannot be read. -/
inductive SchemaError where
  /-- There is no such file. -/
  | unreadable (path : String)
  | malformed (format : SchemaFormat)
  | unsupportedFormat (path : String)
  | invalidBreakpoints (value : Json)
deriving Repr

namespace SchemaError

/-- The text of an error, as far as it does not depend on the place of a
mistake. -/
def message : SchemaError → String
  | unreadable path => "failed to read " ++ path
  | malformed .json => "invalid JSON"
  | malformed .yaml => "invalid YAML"
  | unsupportedFormat path =>
    "unsupported schema format for " ++ path ++ " (expected .json, .yaml or .yml)"
  | invalidBreakpoints value =>
    "breakpoint table must be an object of name -> min width, got " ++ value.text

end SchemaError

/-- Read a schema in a format. -/
def parseSchema (format : SchemaFormat) (text : String) : Except SchemaError Json :=
  let read := match format with
    | .json => Json.parse? text
    | .yaml => Json.ofYaml? text
  match read with
  | some schema => .ok schema
  | none => .error (.malformed format)

/-- The schema in a file with a path, given what the file holds, if there is
one. -/
def loadSchema (path : String) (content : Option String) : Except SchemaError Json :=
  match SchemaFormat.ofPath? path, content with
  | none, _ => .error (.unsupportedFormat path)
  | some _, none => .error (.unreadable path)
  | some format, some text => parseSchema format text

/-- Read a breakpoint table, an object of least widths. -/
def parseBreakpoints (text : String) : Except SchemaError BreakpointTable :=
  match Json.parse? text with
  | none => .error (.malformed .json)
  | some value =>
    match BreakpointTable.ofJson? value with
    | some table => .ok table
    | none => .error (.invalidBreakpoints value)

end ViewSchema
