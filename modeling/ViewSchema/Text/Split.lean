/-!
# Splitting text

Splitting a sequence of characters at every separator, and the operations on
slash-separated paths that are built from it.
-/

namespace ViewSchema

/-- The pieces of a text between separators; there is one more piece than there
are separators, and pieces may be empty. -/
def splitAtEach (separates : Char → Bool) : List Char → List (List Char)
  | [] => [[]]
  | c :: rest =>
    if separates c then [] :: splitAtEach separates rest
    else
      match splitAtEach separates rest with
      | [] => [[c]]
      | piece :: others => (c :: piece) :: others

/-- The pieces that are not empty. -/
def nonemptyPieces (separates : Char → Bool) (cs : List Char) : List (List Char) :=
  (splitAtEach separates cs).filter fun piece => !piece.isEmpty

/-- The pieces of a string at each occurrence of a character. -/
def splitString (separator : Char) (text : String) : List String :=
  (splitAtEach (· == separator) text.toList).map String.ofList

/-- The segments of a slash-separated path. -/
def pathSegments (path : String) : List String :=
  (nonemptyPieces (· == '/') path.toList).map String.ofList

/-- What stands before the first character of a class. -/
def textBefore (ends : Char → Bool) (text : String) : String :=
  String.ofList (text.toList.takeWhile fun c => !ends c)

/-- A text without the given characters at its front. -/
def trimFront (drops : Char → Bool) (text : String) : String :=
  String.ofList (text.toList.dropWhile drops)

/-- A text without the given characters at its end. -/
def trimBack (drops : Char → Bool) (text : String) : String :=
  String.ofList (text.toList.reverse.dropWhile drops).reverse

/-- What follows a front part, if the text has it. -/
def afterFront? (front text : String) : Option String :=
  if front.toList.isPrefixOf text.toList then
    some (String.ofList (text.toList.drop front.length))
  else none

/-- Whether a text occurs inside another one. -/
def occursIn (part text : List Char) : Bool :=
  part.isPrefixOf text ||
    match text with
    | [] => false
    | _ :: rest => occursIn part rest

/-- Splitting never gives nothing. -/
theorem splitAtEach_ne_nil (separates : Char → Bool) (cs : List Char) :
    splitAtEach separates cs ≠ [] := by
  cases cs with
  | nil => simp [splitAtEach]
  | cons c rest =>
    simp only [splitAtEach]
    split
    · simp
    · split <;> simp

/-- No piece holds a separator. -/
theorem separates_eq_false_of_mem_splitAtEach {separates : Char → Bool} {cs piece : List Char}
    {c : Char} (hpiece : piece ∈ splitAtEach separates cs) (hc : c ∈ piece) :
    separates c = false := by
  induction cs generalizing piece with
  | nil =>
    simp only [splitAtEach, List.mem_singleton] at hpiece
    simp [hpiece] at hc
  | cons d rest ih =>
    simp only [splitAtEach] at hpiece
    split at hpiece
    · rcases List.mem_cons.1 hpiece with rfl | h
      · simp at hc
      · exact ih h hc
    · rename_i hd
      split at hpiece
      · simp only [List.mem_singleton] at hpiece
        subst hpiece
        simp only [List.mem_singleton] at hc
        subst hc
        simpa using hd
      · rename_i first others heq
        rcases List.mem_cons.1 hpiece with rfl | h
        · rcases List.mem_cons.1 hc with rfl | h
          · simpa using hd
          · exact ih (heq ▸ List.mem_cons_self) h
        · exact ih (heq ▸ List.mem_cons_of_mem _ h) hc

end ViewSchema
