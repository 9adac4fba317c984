import ViewSchema.Json.Pointer
import ViewSchema.Text.Blank

/-!
# References

A text such as `$data/user/name` stands for the value at that place of a
context. An object whose field `ref` leads to an object stands for that object
with its own other fields laid over it. What leads nowhere is left as written.

Chains are followed for a bounded number of hops, so that resolving ends on
cyclic contexts too.

Main definitions:

- `Reference.pointer?` reads the place that a text refers to.
- `Reference.substitute` replaces every reference of a value once, and hands what
  it leads to to a follower; `Reference.resolve` iterates it.
-/

namespace ViewSchema

namespace Reference

/-- The longest chain of references that is followed. -/
def maxHops : Nat := 32

/-- The pointer that a text refers to: it begins with a dollar sign, which
neither a blank nor a digit follows. -/
def pointer? (text : String) : Option String :=
  match text.toList with
  | '$' :: c :: rest =>
    if isBlank c || c.isDigit then none
    else some ("/" ++ String.ofList ((c :: rest).dropWhile (· == '/')))
  | _ => none

/-- The value that a text refers to in a context. -/
def lookup? (context : Json) (text : String) : Option Json :=
  (pointer? text).bind context.pointer?

/-- The object that the field `ref` of an object refers to. -/
def target? (context : Json) (fields : List (String × Json)) : Option (List (String × Json)) :=
  ((Fields.string? fields "ref").bind (lookup? context)).bind Json.object?

/-- A referenced object with the other fields of the referring one laid over
it. -/
def overlay (target fields : List (String × Json)) : List (String × Json) :=
  Fields.setAll target (fields.filter fun field => field.1 != "ref")

mutual

/-- Replace every reference in a value by what following it gives. -/
def substitute (context : Json) (follow : Json → Json) : Json → Json
  | .string s =>
    match lookup? context s with
    | some found => follow found
    | none => .string s
  | .array items => .array (substituteItems context follow items)
  | .object fields =>
    match target? context fields with
    | some target => follow (.object (overlay target fields))
    | none => .object (substituteFields context follow fields)
  | other => other

def substituteItems (context : Json) (follow : Json → Json) : List Json → List Json
  | [] => []
  | x :: xs => substitute context follow x :: substituteItems context follow xs

def substituteFields (context : Json) (follow : Json → Json) :
    List (String × Json) → List (String × Json)
  | [] => []
  | (name, x) :: xs => (name, substitute context follow x) :: substituteFields context follow xs

end

/-- Resolve references along chains of at most `hops - 1` hops; what lies beyond
is left as it stands there. -/
def resolveWithin (context : Json) : Nat → Json → Json
  | 0, value => value
  | hops + 1, value => substitute context (resolveWithin context hops) value

/-- Resolve every reference of a schema in a context. -/
def resolve (context schema : Json) : Json := resolveWithin context (maxHops + 1) schema

end Reference

end ViewSchema
