import ViewSchema.Json.Fields
import ViewSchema.Number.Double

/-!
# JSON values

The dynamic values that schemas, stored state and response bodies are made of.
Objects keep the order of their members. An integer and a double of the same
magnitude are different values, since they are written differently.
-/

namespace ViewSchema

/-- A number as it was written: an integer, or anything else as a double. -/
inductive Number where
  | int (value : Int)
  | double (value : Double)
deriving DecidableEq, Repr

namespace Number

/-- The nearest double. -/
def toDouble : Number → Double
  | int i => .ofInt i
  | double d => d

/-- Either zero. -/
def isZero : Number → Bool
  | int i => i == 0
  | double d => d.isZero

/-- The value as a natural number below `2 ^ 64`; doubles have none. -/
def toNat? : Number → Option Nat
  | int i => if 0 ≤ i ∧ i.toNat < Nat.pow 2 64 then some i.toNat else none
  | double _ => none

/-- The value as a signed 64-bit integer; doubles have none. -/
def toInt? : Number → Option Int
  | int i =>
    if i.toNat < Nat.pow 2 63 ∧ (-i).toNat ≤ Nat.pow 2 63 then some i else none
  | double _ => none

end Number

/-- A JSON value. -/
inductive Json where
  | null
  | bool (value : Bool)
  | number (value : Number)
  | string (text : String)
  | array (items : List Json)
  | object (fields : List (String × Json))
deriving Repr, Inhabited

namespace Json

/-- The integer value `i`. -/
def int (i : Int) : Json := number (.int i)

mutual

/-- Equality of values, structural in numbers too. -/
def beq : Json → Json → Bool
  | null, null => true
  | bool a, bool b => a == b
  | number a, number b => a == b
  | string a, string b => a == b
  | array xs, array ys => beqItems xs ys
  | object xs, object ys => beqFields xs ys
  | _, _ => false

def beqItems : List Json → List Json → Bool
  | [], [] => true
  | x :: xs, y :: ys => beq x y && beqItems xs ys
  | _, _ => false

def beqFields : List (String × Json) → List (String × Json) → Bool
  | [], [] => true
  | (a, x) :: xs, (b, y) :: ys => a == b && beq x y && beqFields xs ys
  | _, _ => false

end

instance : BEq Json := ⟨beq⟩

/-! ## Views -/

def isNull : Json → Bool
  | null => true
  | _ => false

def isObject : Json → Bool
  | object _ => true
  | _ => false

def isArray : Json → Bool
  | array _ => true
  | _ => false

/-- The text of a string value. -/
def string? : Json → Option String
  | string s => some s
  | _ => none

def bool? : Json → Option Bool
  | bool b => some b
  | _ => none

def array? : Json → Option (List Json)
  | array items => some items
  | _ => none

def object? : Json → Option (List (String × Json))
  | object fields => some fields
  | _ => none

def nat? : Json → Option Nat
  | number n => n.toNat?
  | _ => none

/-- A member of an object; other values have none. -/
def member? (value : Json) (name : String) : Option Json :=
  value.object?.bind fun fields => fields.lookup name

/-- Values that stand for nothing in a schema: null, false, the empty text and
zero. -/
def isFalsy : Json → Bool
  | null => true
  | bool b => !b
  | string s => s.isEmpty
  | number n => n.isZero
  | array _ => false
  | object _ => false

/-- The value `false`. -/
def isFalse : Json → Bool
  | bool false => true
  | _ => false

mutual

/-- The value in which every object has each name once: the place is that of the
first occurrence, the value that of the last. -/
def distinct : Json → Json
  | array items => array (distinctItems items)
  | object fields => object (Fields.ofList (distinctFields fields))
  | other => other

def distinctItems : List Json → List Json
  | [] => []
  | x :: xs => distinct x :: distinctItems xs

def distinctFields : List (String × Json) → List (String × Json)
  | [] => []
  | (name, x) :: xs => (name, distinct x) :: distinctFields xs

end

end Json

namespace Fields

/-- The text of a field that holds a string. -/
def string? (fields : List (String × Json)) (name : String) : Option String :=
  (fields.lookup name).bind Json.string?

end Fields

end ViewSchema
