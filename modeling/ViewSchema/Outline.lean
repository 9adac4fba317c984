import ViewSchema.Compile.Section
import ViewSchema.Component.Descriptor

/-!
# Outlines

The sections and text leaves of a schema, in the order in which they compile,
each with its path. An outline keeps what stands inside a section below it.

Main definitions:

- `Outline.ofSchema` reads the outline of a schema.
- `Outline.visits` lists it in document order.
-/

namespace ViewSchema

/-- A section with what stands inside it, or a text leaf. -/
inductive Outline where
  | text (path : String) (value : Json)
  | section (path name : String) (fields : List (String × Json)) (inside : List Outline)
deriving Repr

namespace Outline

/-- Fields whose values compile before the content of a section. -/
def nestedFields : List String := Section.renderedFields ++ ["content"]

/-- A path one step deeper. -/
def join (path part : String) : String := if path.isEmpty then part else path ++ "/" ++ part

/-- Outlines of the nested fields of a section, in compile order. -/
def pick (outlines : List (String × List Outline)) : List Outline :=
  nestedFields.flatMap fun name => (outlines.lookup name).getD []

mutual

/-- The outline of a value at a path. -/
def ofValue (path : String) : Json → List Outline
  | .array items => ofItems path 0 items
  | .object fields =>
    match Section.name? fields with
    | some name => [.section path name fields (pick (ofFields path fields))]
    | none => ofEntries path fields
  | .null => []
  | .bool b => if b then [.text path (.bool true)] else []
  | .string s => if s.isEmpty then [] else [.text path (.string s)]
  | .number n => if n.isZero then [] else [.text path (.number n)]

def ofItems (path : String) (index : Nat) : List Json → List Outline
  | [] => []
  | x :: xs => ofValue (join path (toString index)) x ++ ofItems path (index + 1) xs

/-- The outlines of all fields of a section, by name. -/
def ofFields (path : String) : List (String × Json) → List (String × List Outline)
  | [] => []
  | (name, x) :: xs => (name, ofValue (join path name) x) :: ofFields path xs

/-- The sections of a map of sections. -/
def ofEntries (path : String) : List (String × Json) → List Outline
  | [] => []
  | (key, .object fields) :: xs =>
    .section (join path key) ((Section.name? fields).getD key) fields
      (pick (ofFields (join path key) fields)) :: ofEntries path xs
  | (key, x) :: xs =>
    .section (join path key) key (Section.ofEntry key x)
      (ofValue (join (join path key) "content") x) :: ofEntries path xs

end

/-- The outline of a schema. -/
def ofSchema (schema : Json) : List Outline := ofValue "" schema

/-- A section or a text without what stands inside. -/
inductive Visit where
  | text (path : String) (value : Json)
  | section (path name : String) (fields : List (String × Json))
deriving Repr

mutual

/-- An outline in document order, outer sections first. -/
def visits : Outline → List Visit
  | .text path value => [.text path value]
  | .section path name fields inside => .section path name fields :: visitsOf inside

def visitsOf : List Outline → List Visit
  | [] => []
  | o :: os => visits o ++ visitsOf os

end

/-- What is known about a section that was looked for. -/
structure SectionMatch where
  name : String
  component : String
  path : String
  active : Bool
deriving DecidableEq, Repr

/-- Describe a section. -/
def Visit.match? : Visit → Option SectionMatch
  | .text _ _ => none
  | .section path name fields =>
    some
      { name
        component := (Fields.string? fields "component").getD Descriptor.base.name
        path := if path.isEmpty then "/" else path
        active := !Section.isInactive fields }

/-- The sections of a schema, or only those of one component. -/
def findSections (schema : Json) (component : Option String) : List SectionMatch :=
  ((visitsOf (ofSchema schema)).filterMap Visit.match?).filter fun m =>
    match component with
    | some name => m.component == name
    | none => true

/-- The number of text leaves of a schema. -/
def countTexts (schema : Json) : Nat :=
  ((visitsOf (ofSchema schema)).filter fun
    | .text _ _ => true
    | .section _ _ _ => false).length

end Outline

end ViewSchema
