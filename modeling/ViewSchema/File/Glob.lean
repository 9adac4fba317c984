/-!
# Wildcard patterns

Patterns of file paths. A question mark stands for any character, a star for any
text, brackets for one of the characters in them or, behind an exclamation mark,
for any other one. Two stars are a whole component of a pattern and stand for any
number of components.

Main definitions:

- `Glob.ofText?` reads a pattern, which may be malformed.
- `Glob.accepts` says whether a pattern stands for a text.
-/

namespace ViewSchema

namespace Glob

/-- What brackets enclose: characters and ranges of them. -/
structure CharRange where
  first : Char
  last : Char
deriving DecidableEq

inductive Token where
  | char (c : Char)
  | anyChar
  | anyText
  | anyComponents
  | within (ranges : List CharRange)
  | except (ranges : List CharRange)
deriving DecidableEq

/-- The ranges between brackets; a hyphen between two characters makes them one. -/
def rangesOf : List Char → List CharRange
  | a :: '-' :: b :: rest => ⟨a, b⟩ :: rangesOf rest
  | a :: rest => ⟨a, a⟩ :: rangesOf rest
  | [] => []

/-- Whether one of the ranges holds a character. -/
def covers (ranges : List CharRange) (c : Char) : Bool :=
  ranges.any fun range => range.first ≤ c && c ≤ range.last

/-- A text divided at the first closing bracket behind its first character. -/
def closing? : List Char → Option (List Char × List Char)
  | [] => none
  | first :: rest =>
    match rest.dropWhile (· != ']') with
    | _ :: others => some (first :: rest.takeWhile (· != ']'), others)
    | [] => none

/-- What follows an opening bracket: the token, and the text behind it. -/
def bracket? : List Char → Option (Token × List Char)
  | '!' :: rest => (closing? rest).map fun (inner, others) => (.except (rangesOf inner), others)
  | rest => (closing? rest).map fun (inner, others) => (.within (rangesOf inner), others)

theorem length_closing? {cs inner others : List Char} (h : closing? cs = some (inner, others)) :
    others.length < cs.length := by
  unfold closing? at h
  split at h
  · simp at h
  · rename_i first rest
    split at h
    · rename_i c others' heq
      simp only [Option.some.injEq, Prod.mk.injEq] at h
      have hle : (rest.dropWhile (· != ']')).length ≤ rest.length :=
        (List.dropWhile_suffix _).length_le
      rw [heq, h.2] at hle
      simp only [List.length_cons] at hle ⊢
      omega
    · simp at h

theorem length_bracket? {cs others : List Char} {token : Token}
    (h : bracket? cs = some (token, others)) : others.length < cs.length := by
  unfold bracket? at h
  split at h
  · obtain ⟨⟨inner, rest⟩, hc, heq⟩ := Option.map_eq_some_iff.1 h
    simp only [Prod.mk.injEq] at heq
    have := length_closing? hc
    simp only [List.length_cons]
    rw [← heq.2]
    omega
  · obtain ⟨⟨inner, rest⟩, hc, heq⟩ := Option.map_eq_some_iff.1 h
    simp only [Prod.mk.injEq] at heq
    rw [← heq.2]
    exact length_closing? hc

/-- Read a pattern. `fresh` tells whether a component starts here. -/
def tokens? (fresh : Bool) (cs : List Char) : Option (List Token) :=
  match cs with
  | [] => some []
  | '?' :: rest => (tokens? false rest).map (.anyChar :: ·)
  | '*' :: '*' :: '*' :: _ => none
  | ['*', '*'] => if fresh then some [.anyComponents] else none
  | '*' :: '*' :: '/' :: rest =>
    if fresh then (tokens? true rest).map (.anyComponents :: ·) else none
  | '*' :: '*' :: _ => none
  | '*' :: rest => (tokens? false rest).map (.anyText :: ·)
  | '[' :: rest =>
    match _h : bracket? rest with
    | some (token, others) => (tokens? false others).map (token :: ·)
    | none => none
  | c :: rest => (tokens? (c == '/') rest).map (.char c :: ·)
termination_by cs.length
decreasing_by
  all_goals simp only [List.length_cons]
  all_goals first
    | omega
    | exact Nat.lt_succ_of_lt (length_bracket? (by assumption))

/-- The character of a token without wildcards. -/
def Token.char? : Token → Option Char
  | .char c => some c
  | _ => none

/-- What a token leaves of a text, in each way in which it can match. -/
def Token.rests : Token → List Char → List (List Char)
  | .char c, d :: rest => if c = d then [rest] else []
  | .anyChar, _ :: rest => [rest]
  | .within ranges, c :: rest => if covers ranges c then [rest] else []
  | .except ranges, c :: rest => if covers ranges c then [] else [rest]
  | .anyText, cs => suffixes cs
  | .anyComponents, cs => cs :: componentEnds cs
  | _, [] => []
where
  /-- All ends of a text. -/
  suffixes : List Char → List (List Char)
    | [] => [[]]
    | c :: rest => (c :: rest) :: suffixes rest
  /-- What follows each slash, and nothing. -/
  componentEnds : List Char → List (List Char)
    | [] => [[]]
    | c :: rest => if c = '/' then rest :: componentEnds rest else componentEnds rest

/-- Whether tokens stand for a whole text. -/
def matchTokens : List Token → List Char → Bool
  | [], cs => cs.isEmpty
  | token :: tokens, cs => (token.rests cs).any (matchTokens tokens)

end Glob

/-- A pattern of paths. -/
structure Glob where
  tokens : List Glob.Token
deriving DecidableEq

namespace Glob

/-- Whether a text has a character that makes it a pattern. -/
def isWild (text : String) : Bool := text.toList.any fun c => c == '*' || c == '?' || c == '['

/-- Read a pattern. -/
def ofText? (text : String) : Option Glob := (tokens? true text.toList).map (⟨·⟩)

/-- Whether a pattern stands for a text. -/
def accepts (glob : Glob) (text : String) : Bool := matchTokens glob.tokens text.toList

/-- Whether a pattern stands for any number of components. -/
def isRecursive (glob : Glob) : Bool := glob.tokens.contains .anyComponents

/-- The text that a pattern without wildcards stands for. -/
def literal? (glob : Glob) : Option String :=
  (glob.tokens.mapM Token.char?).map String.ofList

end Glob

end ViewSchema
