import ViewSchema.Json.Value

/-!
# Dictionaries

Tables of texts by language. A text is looked up in the current language first
and in the fallback language after it; a text found in neither stays as it is.
-/

namespace ViewSchema

/-- Text tables by language. -/
structure Dictionary where
  lang : String
  fallback : Option String
  tables : List (String × List (String × String))
deriving DecidableEq, Repr

namespace Dictionary

/-- A dictionary without tables. -/
def ofLang (lang : String) (fallback : Option String) : Dictionary := ⟨lang, fallback, []⟩

/-- Add entries to the table of a language; known texts are overwritten. -/
def addTable (dict : Dictionary) (lang : String) (entries : List (String × String)) :
    Dictionary :=
  let table := (dict.tables.lookup lang).getD []
  { dict with tables := Fields.set dict.tables lang (Fields.setAll table entries) }

/-- The entries of a table that are texts. -/
def textEntries (fields : List (String × Json)) : List (String × String) :=
  fields.filterMap fun field => field.2.string?.map fun text => (field.1, text)

/-- Add the tables of an object of objects; other values add nothing. -/
def addTables (dict : Dictionary) (value : Json) : Dictionary :=
  (value.object?.getD []).foldl
    (fun acc field =>
      match field.2.object? with
      | some fields => acc.addTable field.1 (textEntries fields)
      | none => acc)
    dict

def setLang (dict : Dictionary) (lang : String) : Dictionary := { dict with lang }

/-- The languages that have a table, sorted. -/
def languages (dict : Dictionary) : List String :=
  (Fields.names dict.tables).mergeSort (· ≤ ·)

/-- The entry for a text in the table of a language. -/
def lookup? (dict : Dictionary) (lang text : String) : Option String :=
  (dict.tables.lookup lang).bind fun table => table.lookup text

/-- What a text is in the current language, if a table has it. -/
def translate? (dict : Dictionary) (text : String) : Option String :=
  (dict.lookup? dict.lang text).or (dict.fallback.bind fun lang => dict.lookup? lang text)

end Dictionary

end ViewSchema
