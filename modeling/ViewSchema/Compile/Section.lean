import ViewSchema.ClassList
import ViewSchema.Compile.Wrapping
import ViewSchema.Json.Value

/-!
# Sections

A section is an object with a name. This module holds what the compiler reads
from a section and the fields it keeps to itself.
-/

namespace ViewSchema

namespace Section

/-- A name: a text, or a list whose texts are joined by hyphens. -/
def joinedName? : Json → Option String
  | .string name => some name
  | .array parts =>
    let texts := parts.filterMap Json.string?
    if texts.isEmpty then none else some (String.intercalate "-" texts)
  | _ => none

/-- The name of a section; objects without one are no sections. -/
def name? (fields : List (String × Json)) : Option String :=
  (fields.lookup "name").bind joinedName?

/-- Fields that are not handed on as props. -/
def reservedFields : List String :=
  ["component", "content", "placeholder", "label", "message", "errorMessage", "managerName",
    "wrapper", "wrapperClasses", "wrapperStyle", "active", "name"]

/-- Fields that are compiled before the component sees them. -/
def renderedFields : List String := ["label", "placeholder", "message", "errorMessage"]

/-- A section without several of its fields, removed one after the other. -/
def without (fields : List (String × Json)) (names : List String) : List (String × Json) :=
  names.foldl Fields.swapRemove fields

/-- The fields that are handed on. -/
def handedOn (fields : List (String × Json)) : List (String × Json) :=
  without fields reservedFields

/-- Only the value `false` makes a section inactive. -/
def isInactive (fields : List (String × Json)) : Bool :=
  ((fields.lookup "active").map Json.isFalse).getD false

/-- Several fields with their values, where they are present. -/
def present (fields : List (String × Json)) (names : List String) : List (String × Json) :=
  names.filterMap fun name => (fields.lookup name).map fun value => (name, value)

/-- The section of an entry in a map of sections: the key is its name unless it
brings one, and a value that is no object is its content. -/
def ofEntry (key : String) : Json → List (String × Json)
  | .object fields => Fields.setAll [("name", .string key)] fields
  | value => [("name", .string key), ("content", value)]

end Section

/-- The sections around a value, innermost first, each with its name and the
fields it hands on. -/
structure Scope where
  sections : List (String × List (String × Json))

namespace Scope

/-- Outside of any section. -/
def root : Scope := ⟨[]⟩

/-- The scope inside a section. -/
def enter (scope : Scope) (name : String) (fields : List (String × Json)) : Scope :=
  ⟨(name, fields) :: scope.sections⟩

/-- The fields of the innermost section. -/
def options? (scope : Scope) : Option (List (String × Json)) :=
  scope.sections.head?.map Prod.snd

def names (scope : Scope) : List String := scope.sections.map Prod.fst

def depth (scope : Scope) : Nat := scope.sections.length

end Scope

end ViewSchema
