/-!
# Headers

Headers of requests and responses: values by name, sorted by name.
-/

namespace ViewSchema

namespace Headers

variable {α : Type}

/-- Set a header in its place in the order of names. -/
def set : List (String × α) → String → α → List (String × α)
  | [], name, value => [(name, value)]
  | header :: rest, name, value =>
    if name < header.1 then (name, value) :: header :: rest
    else if name = header.1 then (name, value) :: rest
    else header :: set rest name value

/-- Set several headers, one after the other. -/
def setAll (headers others : List (String × α)) : List (String × α) :=
  others.foldl (fun acc header => set acc header.1 header.2) headers

/-- Remove a header. -/
def remove (headers : List (String × α)) (name : String) : List (String × α) :=
  headers.filter (·.1 != name)

@[simp] theorem setAll_nil (headers : List (String × α)) : setAll headers [] = headers := rfl

@[simp] theorem setAll_cons (headers : List (String × α)) (header : String × α)
    (others : List (String × α)) :
    setAll headers (header :: others) = setAll (set headers header.1 header.2) others := rfl

end Headers

end ViewSchema
