import ViewSchema.Json.Value
import ViewSchema.Text.Split

/-!
# Route patterns

Patterns of paths, segment by segment: a `:name` stands for any one segment, and
a `*` for all that are left.
-/

namespace ViewSchema

namespace RoutePattern

/-- The last segments of a pattern match everything that is left. -/
def restSegment : String := "*"

/-- The name of a segment that stands for any one. -/
def param? (segment : String) : Option String := afterFront? ":" segment

/-- Match segments one by one, collecting the values of names; the last value of
a name counts. -/
def matchSegments (params : List (String × Json)) :
    List String → List String → Option (List (String × Json))
  | [], [] => some params
  | [], _ :: _ => none
  | segment :: segments, actual =>
    if segment = restSegment then
      some (Fields.set params restSegment (.string (String.intercalate "/" actual)))
    else
      match actual with
      | [] => none
      | first :: others =>
        match param? segment with
        | some name => matchSegments (Fields.set params name (.string first)) segments others
        | none => if segment = first then matchSegments params segments others else none

/-- The segments of a path; what follows a question or number sign is no part of
it. -/
def segmentsOf (path : String) : List String :=
  pathSegments (textBefore (fun c => c == '?' || c == '#') path)

/-- Match a path against a pattern. Extra slashes do not count. -/
def match? (pattern path : String) : Option (List (String × Json)) :=
  matchSegments [] (pathSegments pattern) (segmentsOf path)

end RoutePattern

end ViewSchema
