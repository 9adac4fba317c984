import ViewSchema.Json.Value
import ViewSchema.Text.Blank

/-!
# Class lists

Ordered sets of class tokens. Tokens keep the order in which they were added and
occur once; the list is joined into one text only where it is written out.
-/

namespace ViewSchema

/-- Class tokens in the order in which they were added. -/
structure ClassList where
  tokens : List String
deriving DecidableEq, Repr

namespace ClassList

/-- The list without tokens. -/
def empty : ClassList := ⟨[]⟩

instance : Inhabited ClassList := ⟨empty⟩

def isEmpty (list : ClassList) : Bool := list.tokens.isEmpty

def size (list : ClassList) : Nat := list.tokens.length

def contains (list : ClassList) (token : String) : Bool := list.tokens.contains token

/-- Add one token at the end, unless it is there. -/
def insert (list : ClassList) (token : String) : ClassList :=
  if list.contains token then list else ⟨list.tokens ++ [token]⟩

/-- Add several tokens. -/
def insertAll (list : ClassList) (tokens : List String) : ClassList :=
  tokens.foldl insert list

/-- Add the tokens of a text, which blanks separate. -/
def add (list : ClassList) (text : String) : ClassList := list.insertAll (wordsOf text)

/-- Whether adding a text changes the list. -/
def lacks (list : ClassList) (text : String) : Bool :=
  (wordsOf text).any fun token => !list.contains token

/-- Remove one token. -/
def remove (list : ClassList) (token : String) : ClassList :=
  ⟨list.tokens.filter fun t => t != token⟩

/-- Remove a token that is there, add the tokens of the text otherwise. -/
def toggle (list : ClassList) (text : String) : ClassList :=
  if list.contains text then list.remove text else list.add text

/-- The answer of a toggle: whether the token was absent before. -/
def togglesOn (list : ClassList) (text : String) : Bool := !list.contains text

/-- Add the tokens of another list. -/
def extend (list other : ClassList) : ClassList := list.insertAll other.tokens

/-- The tokens of a text. -/
def parse (text : String) : ClassList := empty.add text

/-- Collect the tokens of several texts. -/
def collect (texts : List String) : ClassList := texts.foldl add empty

mutual

/-- The classes named by a value: a text, or a list of such values nested to any
depth. Other values name none. -/
def ofJson : Json → ClassList
  | .string s => parse s
  | .array items => ofItems empty items
  | _ => empty

def ofItems (list : ClassList) : List Json → ClassList
  | [] => list
  | x :: xs => ofItems (list.extend (ofJson x)) xs

end

/-- The classes named by a value that may be missing. -/
def ofJson? (value : Option Json) : ClassList := (value.map ofJson).getD empty

/-- The tokens in order, one blank between two. -/
def text (list : ClassList) : String := String.intercalate " " list.tokens

def toJson (list : ClassList) : Json := .string list.text

end ClassList

end ViewSchema
