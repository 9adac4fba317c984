import Mathlib.Data.List.Basic
import Mathlib.Data.List.TakeWhile
import ViewSchema.Markup.Tag
import ViewSchema.Proofs.Json.Fields
import ViewSchema.Proofs.Markup.Decoding

/-!
# The grammar of tags

Behind its opening bracket a tag is an optional slash, a name, attributes with blanks in front of
them, blanks, an optional slash and the closing bracket.  Only the place of a slash behind a bare
value is left open by this: it may belong to the value or close the tag.  The scanner takes values
as long as they can be, and with this rule it reads what the grammar describes, and nothing else.

Main results:

- Definition `Tag.TagText`: the grammar, with or without the rule for bare values.
- Theorem `Tag.read?_eq_some_iff`: the scanner reads exactly the tags of the grammar.
- Theorem `Tag.TagText.exists_greedy`: the rule decides how a tag is read, and not what is a tag.
-/

namespace ViewSchema

namespace Markup

namespace Tag

/-! ## The grammar -/

/-- A name that the scanner takes for the name of an attribute. -/
def IsAttributeName (name : String) : Prop :=
  name.toList ≠ [] ∧ ∀ c ∈ name.toList, isAttributeChar c = true

instance : DecidablePred IsAttributeName := fun name =>
  decidable_of_iff (name.toList ≠ [] ∧ name.toList.all isAttributeChar = true)
    (and_congr_right fun _ => List.all_eq_true)

/-- A name that the scanner takes for the name of a tag. -/
structure IsTagName (name : String) : Prop where
  start : ∃ c cs, name.toList = c :: cs ∧ isNameStart c = true
  chars : ∀ c ∈ name.toList, isNameChar c = true

def Blanks (cs : List Char) : Prop := ∀ c ∈ cs, isBlank c = true

/-- A slash, if it is there. -/
def slashIf (present : Bool) : List Char := if present then ['/'] else []

/-- A value as it is written, and the character behind it: a text in quotes, or a run of characters
that may be slashes, too. By the rule for bare values no slash stands behind such a run. -/
inductive ValueText (greedy : Bool) : List Char → List Char → Option Char → Prop where
  | quoted {quote : Char} {value : List Char} {next : Option Char}
    (hquote : quote = '"' ∨ quote = '\'') (hvalue : quote ∉ value) :
    ValueText greedy (quote :: (value ++ [quote])) value next
  | bare {value : List Char} {next : Option Char} (hne : value ≠ [])
    (hchars : ∀ c ∈ value, isBareValueChar c = true)
    (hgreedy : greedy = true → next ≠ some '/') :
    ValueText greedy value value next

/-- An attribute with the blanks in front of it, and the character behind it. Blanks may stand
around an equals sign, and entities in a value stand for their characters. -/
inductive AttributeText (greedy : Bool) : List Char → String × Json → Option Char → Prop where
  | name {blanks : List Char} {name : String} {next : Option Char} (hblanks : Blanks blanks)
    (hne : blanks ≠ []) (hname : IsAttributeName name) :
    AttributeText greedy (blanks ++ name.toList) (name, .bool true) next
  | value {blanks before after written value : List Char} {name : String} {next : Option Char}
    (hblanks : Blanks blanks) (hne : blanks ≠ []) (hname : IsAttributeName name)
    (hbefore : Blanks before) (hafter : Blanks after)
    (hvalue : ValueText greedy written value next) :
    AttributeText greedy (blanks ++ (name.toList ++ (before ++ '=' :: (after ++ written))))
      (name, .string (Entity.decodeOnce (String.ofList value))) next

/-- What stands behind the name of a tag: its attributes, then its end. -/
inductive InsideText (greedy : Bool) : List Char → List (String × Json) → Bool → Prop where
  | ending {blanks : List Char} (selfClosing : Bool) (hblanks : Blanks blanks) :
    InsideText greedy (blanks ++ (slashIf selfClosing ++ ['>'])) [] selfClosing
  | cons {written rest : List Char} {a : String × Json} {attributes : List (String × Json)}
    {selfClosing : Bool} (hfirst : AttributeText greedy written a rest.head?)
    (hrest : InsideText greedy rest attributes selfClosing) :
    InsideText greedy (written ++ rest) (a :: attributes) selfClosing

/-- A tag behind its opening bracket. Of attributes with one name the last value counts. -/
inductive TagText (greedy : Bool) : List Char → Tag → Prop where
  | mk {closing selfClosing : Bool} {name : String} {inside : List Char}
    {attributes : List (String × Json)} (hname : IsTagName name)
    (hinside : InsideText greedy inside attributes selfClosing) :
    TagText greedy (slashIf closing ++ (name.toList ++ inside))
      { closing, name, attributes := Fields.ofList attributes, selfClosing }

variable {greedy : Bool} {cs rest written value : List Char}

/-! ## Where names and values end -/

/-- Blanks need not be there. -/
theorem blanks_nil : Blanks [] := fun _ hc => absurd hc List.not_mem_nil

/-- Blanks are dropped up to the character that is none. -/
theorem dropWhile_blanks {blanks : List Char} {c : Char} (hblanks : Blanks blanks)
    (hc : isBlank c = false) (tail : List Char) :
    (blanks ++ c :: tail).dropWhile isBlank = c :: tail := by
  rw [List.dropWhile_append_of_pos hblanks, List.dropWhile_cons_of_neg (by simp [hc])]

/-- A run of characters ends where one stands that is no part of it. -/
theorem takeWhile_run {p : Char → Bool} {run : List Char} (hrun : ∀ c ∈ run, p c = true)
    (hrest : rest.takeWhile p = []) : (run ++ rest).takeWhile p = run := by
  rw [List.takeWhile_append_of_pos hrun, hrest, List.append_nil]

/-- A written value is not empty and does not begin with a blank. -/
theorem exists_cons_of_valueText {next : Option Char} (h : ValueText greedy written value next) :
    ∃ c tail, written = c :: tail ∧ isBlank c = false := by
  cases h with
  | quoted hquote hvalue =>
    refine ⟨_, _, rfl, ?_⟩
    rcases hquote with rfl | rfl <;> decide
  | bare hne hchars hgreedy =>
    obtain ⟨c, tail, rfl⟩ := List.exists_cons_of_ne_nil hne
    have hc := hchars c List.mem_cons_self
    unfold isBareValueChar at hc
    refine ⟨c, tail, rfl, ?_⟩
    simp_all

/-- A name has a first character, and it is neither a blank nor an equals sign. -/
theorem IsAttributeName.exists_cons {name : String} (h : IsAttributeName name) :
    ∃ c cs, name.toList = c :: cs ∧ isBlank c = false ∧ c ≠ '=' := by
  obtain ⟨hne, hchars⟩ := h
  obtain ⟨c, cs, hcs⟩ := List.exists_cons_of_ne_nil hne
  have hc : isAttributeChar c = true := hchars c (by simp [hcs])
  have hblank : isBlank c = false := by
    unfold isAttributeChar at hc
    simp_all
  refine ⟨c, cs, hcs, hblank, ?_⟩
  rintro rfl
  exact absurd hc (by decide)

/-- What stands behind a name or a value: blanks and then no equals sign, or at once the end. -/
def GoesOn (cs : List Char) : Prop :=
  ∃ blanks c tail, cs = blanks ++ c :: tail ∧ Blanks blanks ∧ isBlank c = false ∧ c ≠ '=' ∧
    (blanks = [] → c = '/' ∨ c = '>')

/-- The inside of a tag goes on behind a name or a value: with blanks, or with its end. -/
theorem InsideText.goesOn {attributes : List (String × Json)} {selfClosing : Bool}
    (h : InsideText greedy written attributes selfClosing) (after : List Char) :
    GoesOn (written ++ after) := by
  cases h with
  | ending selfClosing hblanks =>
    cases selfClosing with
    | true => exact ⟨_, '/', '>' :: after, by simp [slashIf], hblanks, by decide, by decide,
        fun _ => .inl rfl⟩
    | false => exact ⟨_, '>', after, by simp [slashIf], hblanks, by decide, by decide,
        fun _ => .inr rfl⟩
  | cons hfirst hrest =>
    cases hfirst with
    | name hblanks hne hname =>
      obtain ⟨c, tail, hc, hblank, heq⟩ := hname.exists_cons
      exact ⟨_, c, _, by simp only [hc, List.append_assoc, List.cons_append]; rfl, hblanks, hblank,
        heq, fun h => absurd h hne⟩
    | value hblanks hne hname hbefore hafter hvalue =>
      obtain ⟨c, tail, hc, hblank, heq⟩ := hname.exists_cons
      exact ⟨_, c, _, by simp only [hc, List.append_assoc, List.cons_append]; rfl, hblanks, hblank,
        heq, fun h => absurd h hne⟩

/-- Characters of which blanks, slashes and brackets are none end before. -/
theorem GoesOn.takeWhile (h : GoesOn cs) {p : Char → Bool} (hblank : ∀ c, isBlank c → p c = false)
    (hslash : p '/' = false) (hbracket : p '>' = false) : cs.takeWhile p = [] := by
  obtain ⟨blanks, c, tail, rfl, hblanks, -, -, hend⟩ := h
  cases blanks with
  | nil =>
    rcases hend rfl with rfl | rfl
    · exact List.takeWhile_cons_of_neg (by simp [hslash])
    · exact List.takeWhile_cons_of_neg (by simp [hbracket])
  | cons b blanks =>
    have hb := hblank b (hblanks b List.mem_cons_self)
    exact List.takeWhile_cons_of_neg (by simp [hb])

/-- The name of an attribute does not reach beyond its end. -/
theorem GoesOn.takeWhile_attributeChar (h : GoesOn cs) : cs.takeWhile isAttributeChar = [] :=
  h.takeWhile (fun c hc => by simp [isAttributeChar, hc]) (by decide) (by decide)

/-- The codes of letters and digits reach from that of `0` to that of `z`. -/
theorem code_of_isAlphanum {c : Char} (h : c.isAlphanum = true) : 48 ≤ c.toNat ∧ c.toNat ≤ 122 := by
  have hupper : c.isUpper = decide (65 ≤ c.val.toNat ∧ c.val.toNat ≤ 90) := rfl
  have hlower : c.isLower = (decide (97 ≤ c.val.toNat) && decide (c.val.toNat ≤ 122)) := rfl
  have hdigit : c.isDigit = (decide (48 ≤ c.val.toNat) && decide (c.val.toNat ≤ 57)) := rfl
  have hcases : c.isAlphanum = (c.isUpper || c.isLower || c.isDigit) := rfl
  have hcode : c.toNat = c.val.toNat := rfl
  rw [hcases, hupper, hlower, hdigit] at h
  simp only [Bool.or_eq_true, Bool.and_eq_true, decide_eq_true_eq] at h
  omega

/-- No letter, digit, colon or dash is a blank. -/
theorem isNameChar_of_isBlank {c : Char} (h : isBlank c = true) : isNameChar c = false := by
  have hcolon : c ≠ ':' := by
    rintro rfl
    exact absurd h (by decide)
  have hdash : c ≠ '-' := by
    rintro rfl
    exact absurd h (by decide)
  have hletter : c.isAlphanum = false := by
    by_contra halphanum
    have hcode := code_of_isAlphanum (by simpa using halphanum)
    simp only [isBlank, Bool.or_eq_true, Bool.and_eq_true, decide_eq_true_eq, beq_iff_eq] at h
    omega
  simp [isNameChar, hcolon, hdash, hletter]

/-- The name of a tag does not reach beyond its end. -/
theorem GoesOn.takeWhile_nameChar (h : GoesOn cs) : cs.takeWhile isNameChar = [] :=
  h.takeWhile (fun _ => isNameChar_of_isBlank) (by decide) (by decide)

/-- A bare value does not reach beyond its end, unless a slash stands behind it. -/
theorem GoesOn.takeWhile_bareValueChar (h : GoesOn cs) (hslash : cs.head? ≠ some '/') :
    cs.takeWhile isBareValueChar = [] := by
  obtain ⟨blanks, c, tail, rfl, hblanks, -, -, hend⟩ := h
  cases blanks with
  | nil =>
    rcases hend rfl with rfl | rfl
    · exact absurd rfl hslash
    · rfl
  | cons b blanks =>
    have hb := hblanks b List.mem_cons_self
    exact List.takeWhile_cons_of_neg (by simp [isBareValueChar, hb])

/-- Nothing is assigned where no equals sign stands. -/
theorem GoesOn.readAssigned? (h : GoesOn cs) : readAssigned? cs = none := by
  obtain ⟨blanks, c, tail, rfl, hblanks, hc, heq, -⟩ := h
  unfold Tag.readAssigned?
  rw [dropWhile_blanks hblanks hc]
  split
  · simp_all
  · rfl

/-! ## What the grammar describes is read -/

/-- A value of the grammar is read up to its end. -/
theorem readValue?_text (h : ValueText true written value rest.head?) (hrest : GoesOn rest) :
    readValue? (written ++ rest) = some (value, rest) := by
  cases h with
  | @quoted quote value _ hquote hvalue =>
    have hchars : ∀ c ∈ value, (c != quote) = true := by
      intro c hc
      have hne : c ≠ quote := by
        rintro rfl
        exact hvalue hc
      simpa using hne
    have hstop : (quote :: rest).takeWhile (· != quote) = [] :=
      List.takeWhile_cons_of_neg (by simp)
    have hdrop : (value ++ quote :: rest).dropWhile (· != quote) = quote :: rest := by
      rw [List.dropWhile_append_of_pos hchars, List.dropWhile_cons_of_neg (by simp)]
    rw [List.cons_append, List.append_assoc, List.singleton_append, readValue?, if_pos hquote,
      hdrop, takeWhile_run hchars hstop]
  | bare hne hchars hgreedy =>
    have htake : (written ++ rest).takeWhile isBareValueChar = written :=
      takeWhile_run hchars (hrest.takeWhile_bareValueChar (hgreedy rfl))
    obtain ⟨c, tail, rfl⟩ := List.exists_cons_of_ne_nil hne
    have hquote : ¬ (c = '"' ∨ c = '\'') := by
      have hc := hchars c List.mem_cons_self
      rintro (rfl | rfl) <;> exact absurd hc (by decide)
    rw [List.cons_append] at htake ⊢
    rw [readValue?, if_neg hquote]
    simp [htake]

/-- Blanks around an equals sign do not matter for the value behind it. -/
theorem readAssigned?_text {before after : List Char} (hbefore : Blanks before)
    (hafter : Blanks after) (hvalue : ValueText true written value rest.head?)
    (hrest : GoesOn rest) :
    readAssigned? (before ++ '=' :: (after ++ (written ++ rest))) = some (value, rest) := by
  have hread := readValue?_text hvalue hrest
  obtain ⟨c, tail, rfl, hc⟩ := exists_cons_of_valueText hvalue
  rw [List.cons_append] at hread ⊢
  unfold readAssigned?
  rw [dropWhile_blanks hbefore (by decide)]
  simp only [dropWhile_blanks hafter hc, hread]

/-- A name is read up to its end; what it is assigned decides the value. -/
theorem readAttribute?_name {blanks : List Char} {name : String} (hblanks : Blanks blanks)
    (hne : blanks ≠ []) (hname : IsAttributeName name)
    (hrest : rest.takeWhile isAttributeChar = []) :
    readAttribute? (blanks ++ (name.toList ++ rest)) =
      match readAssigned? rest with
      | some (value, after) =>
        some ((name, .string (Entity.decodeOnce (String.ofList value))), after)
      | none => some ((name, .bool true), rest) := by
  have hdropped : (blanks ++ (name.toList ++ rest)).dropWhile isBlank = name.toList ++ rest := by
    obtain ⟨c, cs, hcs, hc, -⟩ := hname.exists_cons
    rw [hcs, List.cons_append, dropWhile_blanks hblanks hc]
  have htake : (name.toList ++ rest).takeWhile isAttributeChar = name.toList :=
    takeWhile_run hname.2 hrest
  have hdrop : (name.toList ++ rest).drop name.toList.length = rest := List.drop_left
  have hsome : name.toList.isEmpty = false := by simpa using hname.1
  obtain ⟨b, others, rfl⟩ := List.exists_cons_of_ne_nil hne
  have hb : isBlank b = true := hblanks b List.mem_cons_self
  rw [List.cons_append] at hdropped ⊢
  unfold readAttribute?
  simp only [hb, if_true, hdropped, htake, hdrop, hsome, String.ofList_toList,
    Entity.ofList_decodeChars]
  rfl

/-- An attribute is read up to what stands behind it. -/
theorem readAttribute?_text {a : String × Json} (h : AttributeText true written a rest.head?)
    (hrest : GoesOn rest) : readAttribute? (written ++ rest) = some (a, rest) := by
  cases h with
  | name hblanks hne hname =>
    rw [List.append_assoc, readAttribute?_name hblanks hne hname hrest.takeWhile_attributeChar,
      hrest.readAssigned?]
  | @value blanks before after written value name _ hblanks hne hname hbefore hafter hvalue =>
    have hread := readAssigned?_text hbefore hafter hvalue hrest
    have hstop :
        (before ++ '=' :: (after ++ (written ++ rest))).takeWhile isAttributeChar = [] := by
      cases before with
      | nil => exact List.takeWhile_cons_of_neg (by decide)
      | cons b before =>
        have hb := hbefore b List.mem_cons_self
        exact List.takeWhile_cons_of_neg (by simp [isAttributeChar, hb])
    have hname := readAttribute?_name hblanks hne hname hstop
    rw [hread] at hname
    simpa using hname

/-- No attribute begins where a tag ends. -/
theorem readAttribute?_ending {blanks : List Char} (hblanks : Blanks blanks) (selfClosing : Bool)
    (after : List Char) :
    readAttribute? (blanks ++ (slashIf selfClosing ++ '>' :: after)) = none := by
  obtain ⟨c, tail, hend, hc, hname⟩ : ∃ c tail, slashIf selfClosing ++ '>' :: after = c :: tail ∧
      isBlank c = false ∧ isAttributeChar c = false := by
    cases selfClosing with
    | true => exact ⟨'/', _, rfl, by decide, by decide⟩
    | false => exact ⟨'>', _, rfl, by decide, by decide⟩
  have hdropped := dropWhile_blanks hblanks hc tail
  have htake : (c :: tail).takeWhile isAttributeChar = [] :=
    List.takeWhile_cons_of_neg (by simp [hname])
  rw [hend]
  cases blanks with
  | nil => simp [readAttribute?, hc]
  | cons b blanks =>
    rw [List.cons_append] at hdropped ⊢
    simp [readAttribute?, hdropped, htake]

/-- An end of the grammar is read, with its slash if it has one. -/
theorem readEnding?_ending {blanks : List Char} (hblanks : Blanks blanks) (selfClosing : Bool)
    (after : List Char) :
    readEnding? (blanks ++ (slashIf selfClosing ++ '>' :: after)) = some (selfClosing, after) := by
  unfold readEnding?
  cases selfClosing with
  | true =>
    have hdropped := dropWhile_blanks (c := '/') hblanks (by decide) ('>' :: after)
    simp [slashIf, hdropped]
  | false =>
    have hdropped := dropWhile_blanks (c := '>') hblanks (by decide) after
    simp [slashIf, hdropped]

/-- An attribute is not empty, for it begins with a blank. -/
theorem AttributeText.ne_nil {a : String × Json} {next : Option Char}
    (h : AttributeText greedy written a next) : written ≠ [] := by
  cases h with
  | name hblanks hne hname => simp [hne]
  | value hblanks hne hname hbefore hafter hvalue => simp [hne]

/-- The inside of a tag is not empty, for it ends with a bracket. -/
theorem InsideText.ne_nil {attributes : List (String × Json)} {selfClosing : Bool}
    (h : InsideText greedy written attributes selfClosing) : written ≠ [] := by
  cases h with
  | ending selfClosing hblanks => simp
  | cons hfirst hrest => simp [hfirst.ne_nil]

/-- The inside of a tag has at least as many characters as attributes. -/
theorem InsideText.length_le {attributes : List (String × Json)} {selfClosing : Bool}
    (h : InsideText greedy written attributes selfClosing) :
    attributes.length ≤ written.length := by
  induction h with
  | ending selfClosing hblanks => exact Nat.zero_le _
  | cons hfirst hrest ih =>
    have hone := List.length_pos_iff.2 hfirst.ne_nil
    rw [List.length_append, List.length_cons]
    omega

/-- The attributes of the grammar are read one after the other, and then its end; no more attributes
than characters can be there, so the limit is none. -/
theorem readAttributes_inside {attributes : List (String × Json)} {selfClosing : Bool} {limit : Nat}
    (h : InsideText true written attributes selfClosing) (hlimit : attributes.length ≤ limit)
    (after : List Char) :
    ∃ ending, readAttributes limit (written ++ after) = (attributes, ending) ∧
      readEnding? ending = some (selfClosing, after) := by
  induction h generalizing limit with
  | @ending blanks selfClosing hblanks =>
    have hwritten : blanks ++ (slashIf selfClosing ++ ['>']) ++ after =
        blanks ++ (slashIf selfClosing ++ '>' :: after) := by simp
    rw [hwritten]
    refine ⟨_, ?_, readEnding?_ending hblanks selfClosing after⟩
    cases limit with
    | zero => rfl
    | succ limit => rw [readAttributes, readAttribute?_ending hblanks]
  | @cons written rest a attributes selfClosing hfirst hrest ih =>
    obtain ⟨limit, rfl⟩ : ∃ n, limit = n + 1 := ⟨limit - 1, by simp at hlimit; omega⟩
    have hshort : attributes.length ≤ limit := by simpa using hlimit
    obtain ⟨ending, hread, hending⟩ := ih hshort
    have hhead : (rest ++ after).head? = rest.head? := by
      rw [List.head?_append_of_ne_nil _ hrest.ne_nil]
    have hnext : AttributeText true written a (rest ++ after).head? := hhead ▸ hfirst
    have hone := readAttribute?_text hnext (hrest.goesOn after)
    refine ⟨ending, ?_, hending⟩
    rw [List.append_assoc, readAttributes, hone]
    simp only [hread]

/-- A tag from its name on; whether a slash stands before the name has been read. -/
def readNamed? (closing : Bool) (cs : List Char) : Option (Tag × List Char) :=
  match cs with
  | c :: _ =>
    if isNameStart c then
      let name := cs.takeWhile isNameChar
      let (written, rest) := readAttributes cs.length (cs.drop name.length)
      (readEnding? rest).map fun (selfClosing, after) =>
        ({ closing, name := String.ofList name, attributes := Fields.ofList written,
           selfClosing }, after)
    else none
  | [] => none

/-- A slash behind the opening bracket makes a closing tag. -/
theorem read?_slash (cs : List Char) : read? ('/' :: cs) = readNamed? true cs := rfl

/-- Any other character begins the name of a tag that opens. -/
theorem read?_of_ne_slash {c : Char} (h : c ≠ '/') (cs : List Char) :
    read? (c :: cs) = readNamed? false (c :: cs) := by
  unfold read?
  split
  rename_i closing body hmatch
  split at hmatch
  · simp_all
  · cases hmatch
    rfl

/-- A tag of the grammar is read, whatever stands behind it. -/
theorem TagText.read? {t : Tag} (h : TagText true written t) (after : List Char) :
    Tag.read? (written ++ after) = some (t, after) := by
  obtain ⟨hname, hinside⟩ := h
  rename_i closing selfClosing name inside attributes
  obtain ⟨c, cs, hcs, hstart⟩ := hname.start
  have htake : (name.toList ++ (inside ++ after)).takeWhile isNameChar = name.toList :=
    takeWhile_run hname.chars (hinside.goesOn after).takeWhile_nameChar
  have hlimit : attributes.length ≤ (name.toList ++ (inside ++ after)).length := by
    have hcount := hinside.length_le
    simp only [List.length_append]
    omega
  obtain ⟨ending, hread, hending⟩ := readAttributes_inside hinside hlimit after
  have hnamed : readNamed? closing (name.toList ++ (inside ++ after)) =
      some (⟨closing, name, Fields.ofList attributes, selfClosing⟩, after) := by
    have hdrop : (name.toList ++ (inside ++ after)).drop name.toList.length = inside ++ after :=
      List.drop_left
    rw [hcs, List.cons_append] at htake hread hdrop ⊢
    unfold readNamed?
    simp only [hstart, if_true, htake, hdrop, hread, hending, Option.map_some]
    rw [← hcs, String.ofList_toList]
  have hslash : c ≠ '/' := by
    rintro rfl
    exact absurd hstart (by decide)
  cases closing with
  | true => simpa [slashIf, read?_slash] using hnamed
  | false =>
    rw [hcs, List.cons_append] at hnamed
    simpa [slashIf, hcs, read?_of_ne_slash hslash] using hnamed

/-! ## What is read is a tag of the grammar -/

/-- The blanks that are taken are blanks. -/
theorem blanks_takeWhile (cs : List Char) : Blanks (cs.takeWhile isBlank) :=
  fun _ hc => List.mem_takeWhile_imp hc

/-- What is taken of characters of attribute names, if it is anything, is the name of an attribute. -/
theorem isAttributeName_takeWhile (hne : cs.takeWhile isAttributeChar ≠ []) :
    IsAttributeName (String.ofList (cs.takeWhile isAttributeChar)) := by
  rw [IsAttributeName, String.toList_ofList]
  exact ⟨hne, fun _ hc => List.mem_takeWhile_imp hc⟩

/-- What is taken of characters of tag names behind one that can stand first is the name of a tag. -/
theorem isTagName_takeWhile {c : Char} (hstart : isNameStart c = true) :
    IsTagName (String.ofList ((c :: cs).takeWhile isNameChar)) := by
  have hc : isNameChar c = true := by
    simp only [isNameStart, isNameChar, Char.isAlphanum] at hstart ⊢
    simp [hstart]
  constructor
  · exact ⟨c, cs.takeWhile isNameChar, by simp [hc], hstart⟩
  · intro d hd
    rw [String.toList_ofList] at hd
    exact List.mem_takeWhile_imp hd

/-- Dropping what was taken is dropping while it could be taken. -/
theorem drop_takeWhile (p : Char → Bool) (cs : List Char) :
    cs.drop (cs.takeWhile p).length = cs.dropWhile p := by
  have hsplit := List.takeWhile_append_dropWhile (p := p) (l := cs)
  calc cs.drop (cs.takeWhile p).length
      = (cs.takeWhile p ++ cs.dropWhile p).drop (cs.takeWhile p).length := by rw [hsplit]
    _ = cs.dropWhile p := List.drop_left

/-- A quoted text goes up to its closing quote. -/
theorem eq_append_quote {quote stop : Char} {after : List Char}
    (h : cs.dropWhile (· != quote) = stop :: after) :
    cs = cs.takeWhile (· != quote) ++ quote :: after ∧ quote ∉ cs.takeWhile (· != quote) := by
  have hstop := List.head?_dropWhile_not (· != quote) cs
  have hsame : stop = quote := by
    rw [h] at hstop
    simpa using hstop
  have hsplit := List.takeWhile_append_dropWhile (p := (· != quote)) (l := cs)
  rw [h, hsame] at hsplit
  refine ⟨hsplit.symm, fun hquote => ?_⟩
  have hne := List.mem_takeWhile_imp hquote
  simp at hne

/-- No slash stands behind a run that is as long as it can be. -/
theorem head?_dropWhile_bareValueChar (cs : List Char) :
    (cs.dropWhile isBareValueChar).head? ≠ some '/' := by
  intro hslash
  have hstop := List.head?_dropWhile_not isBareValueChar cs
  rw [hslash] at hstop
  exact absurd hstop (by decide)

/-- A value that is read is one of the grammar. -/
theorem exists_of_readValue? (h : readValue? cs = some (value, rest)) :
    ∃ written, cs = written ++ rest ∧ ValueText true written value rest.head? := by
  unfold readValue? at h
  cases cs with
  | nil => cases h
  | cons c tail =>
    dsimp only at h
    split at h
    · rename_i hquote
      split at h
      · rename_i stop after hafter
        cases h
        obtain ⟨hsplit, hvalue⟩ := eq_append_quote hafter
        refine ⟨c :: (tail.takeWhile (· != c) ++ [c]), ?_, .quoted hquote hvalue⟩
        rw [List.cons_append, List.append_assoc, List.singleton_append, ← hsplit]
      · cases h
    · split at h
      · cases h
      · rename_i hne
        cases h
        rw [drop_takeWhile]
        refine ⟨(c :: tail).takeWhile isBareValueChar, List.takeWhile_append_dropWhile.symm, ?_⟩
        exact .bare (by simpa using hne) (fun _ hd => List.mem_takeWhile_imp hd)
          (fun _ => head?_dropWhile_bareValueChar _)

/-- A value that is read behind an equals sign is one of the grammar, between blanks. -/
theorem exists_of_readAssigned? (h : readAssigned? cs = some (value, rest)) :
    ∃ before after written, cs = before ++ '=' :: (after ++ (written ++ rest)) ∧ Blanks before ∧
      Blanks after ∧ ValueText true written value rest.head? := by
  unfold readAssigned? at h
  split at h
  · rename_i assigned hassigned
    obtain ⟨written, hwritten, hvalue⟩ := exists_of_readValue? h
    refine ⟨cs.takeWhile isBlank, assigned.takeWhile isBlank, written, ?_, blanks_takeWhile cs,
      blanks_takeWhile assigned, hvalue⟩
    rw [← hwritten, List.takeWhile_append_dropWhile, ← hassigned, List.takeWhile_append_dropWhile]
  · cases h

/-- An attribute that is read is one of the grammar. -/
theorem exists_of_readAttribute? {a : String × Json} (h : readAttribute? cs = some (a, rest)) :
    ∃ written, cs = written ++ rest ∧ AttributeText true written a rest.head? := by
  unfold readAttribute? at h
  cases cs with
  | nil => cases h
  | cons c tail =>
    dsimp only at h
    split at h
    · rename_i hblank
      split at h
      · cases h
      · rename_i hne
        rw [drop_takeWhile] at h
        have hblanks := blanks_takeWhile (c :: tail)
        have hsome : (c :: tail).takeWhile isBlank ≠ [] := by simp [hblank]
        have hname := isAttributeName_takeWhile (by simpa using hne)
        have hsplit := List.takeWhile_append_dropWhile (p := isBlank) (l := c :: tail)
        have hstart := List.takeWhile_append_dropWhile (p := isAttributeChar)
          (l := (c :: tail).dropWhile isBlank)
        split at h
        · rename_i value after hassigned
          cases h
          obtain ⟨before, between, written, hrest, hbefore, hbetween, hvalue⟩ :=
            exists_of_readAssigned? hassigned
          rw [Entity.ofList_decodeChars]
          refine ⟨_, ?_, .value hblanks hsome hname hbefore hbetween hvalue⟩
          rw [String.toList_ofList]
          simp only [List.append_assoc, List.cons_append]
          rw [← hrest, hstart, hsplit]
        · cases h
          refine ⟨_, ?_, .name hblanks hsome hname⟩
          rw [String.toList_ofList, List.append_assoc, hstart, hsplit]
    · cases h

/-- An end that is read is one of the grammar. -/
theorem exists_of_readEnding? {selfClosing : Bool} (h : readEnding? cs = some (selfClosing, rest)) :
    ∃ blanks, cs = blanks ++ (slashIf selfClosing ++ '>' :: rest) ∧ Blanks blanks := by
  have hsplit := List.takeWhile_append_dropWhile (p := isBlank) (l := cs)
  unfold readEnding? at h
  split at h
  · rename_i after hafter
    cases h
    rw [hafter] at hsplit
    exact ⟨_, hsplit.symm, blanks_takeWhile cs⟩
  · rename_i after hafter
    cases h
    rw [hafter] at hsplit
    exact ⟨_, hsplit.symm, blanks_takeWhile cs⟩
  · cases h

/-- Attributes that are read with an end behind them are the inside of a tag. -/
theorem exists_of_readAttributes {limit : Nat} {attributes : List (String × Json)}
    {ending after : List Char} {selfClosing : Bool}
    (h : readAttributes limit cs = (attributes, ending))
    (hending : readEnding? ending = some (selfClosing, after)) :
    ∃ written, cs = written ++ after ∧ InsideText true written attributes selfClosing := by
  have hend : ∀ {cs}, readEnding? cs = some (selfClosing, after) →
      ∃ written, cs = written ++ after ∧ InsideText true written [] selfClosing := by
    intro cs hcs
    obtain ⟨blanks, rfl, hblanks⟩ := exists_of_readEnding? hcs
    exact ⟨_, by simp, .ending selfClosing hblanks⟩
  induction limit generalizing cs attributes with
  | zero =>
    cases h
    exact hend hending
  | succ limit ih =>
    rw [readAttributes] at h
    split at h
    · rename_i a rest hfirst
      obtain ⟨written, rfl, hattribute⟩ := exists_of_readAttribute? hfirst
      cases h
      obtain ⟨others, hrest, hinside⟩ := ih (show readAttributes limit rest = _ from rfl)
      have hhead : rest.head? = others.head? := by
        rw [hrest, List.head?_append_of_ne_nil _ hinside.ne_nil]
      refine ⟨written ++ others, ?_, .cons (hhead ▸ hattribute) hinside⟩
      rw [List.append_assoc, ← hrest]
    · cases h
      exact hend hending

/-- A tag that is read from its name on is one of the grammar. -/
theorem exists_of_readNamed? {closing : Bool} {t : Tag} {after : List Char}
    (h : readNamed? closing cs = some (t, after)) :
    ∃ written, slashIf closing ++ cs = written ++ after ∧ TagText true written t := by
  unfold readNamed? at h
  split at h
  · rename_i c tail
    split at h
    · rename_i hstart
      simp only [drop_takeWhile] at h
      obtain ⟨⟨selfClosing, ending⟩, hending, heq⟩ := Option.map_eq_some_iff.1 h
      cases heq
      obtain ⟨inside, hinside, htext⟩ := exists_of_readAttributes rfl hending
      have hsplit := List.takeWhile_append_dropWhile (p := isNameChar) (l := c :: tail)
      refine ⟨_, ?_, .mk (isTagName_takeWhile hstart) htext⟩
      rw [String.toList_ofList, List.append_assoc, List.append_assoc, ← hinside, hsplit]
    · cases h
  · cases h

/-- A tag that is read is one of the grammar. -/
theorem exists_of_read? {t : Tag} {after : List Char} (h : read? cs = some (t, after)) :
    ∃ written, cs = written ++ after ∧ TagText true written t := by
  cases cs with
  | nil => cases h
  | cons c tail =>
    by_cases hslash : c = '/'
    · subst hslash
      rw [read?_slash] at h
      exact exists_of_readNamed? h
    · rw [read?_of_ne_slash hslash] at h
      exact exists_of_readNamed? h

/-- The scanner reads the tags of the grammar, with values as long as they can be, and nothing
else. -/
theorem read?_eq_some_iff {t : Tag} {after : List Char} :
    read? cs = some (t, after) ↔ ∃ written, cs = written ++ after ∧ TagText true written t := by
  constructor
  · exact exists_of_read?
  · rintro ⟨written, rfl, htext⟩
    exact htext.read? after

/-! ## The rule for bare values -/

/-- A value by the rule for bare values is a value without it. -/
theorem ValueText.loosen {next : Option Char} (h : ValueText true written value next) :
    ValueText false written value next := by
  cases h with
  | quoted hquote hvalue => exact .quoted hquote hvalue
  | bare hne hchars hgreedy => exact .bare hne hchars (fun h => absurd h Bool.false_ne_true)

/-- The inside of a tag by the rule for bare values is one without it. -/
theorem InsideText.loosen {attributes : List (String × Json)} {selfClosing : Bool}
    (h : InsideText true written attributes selfClosing) :
    InsideText false written attributes selfClosing := by
  induction h with
  | ending selfClosing hblanks => exact .ending selfClosing hblanks
  | cons hfirst hrest ih =>
    cases hfirst with
    | name hblanks hne hname => exact .cons (.name hblanks hne hname) ih
    | value hblanks hne hname hbefore hafter hvalue =>
      exact .cons (.value hblanks hne hname hbefore hafter hvalue.loosen) ih

/-- A tag that is read by the rule is a tag without it. -/
theorem TagText.loosen {t : Tag} (h : TagText true written t) : TagText false written t := by
  obtain ⟨hname, hinside⟩ := h
  exact .mk hname hinside.loosen

/-- A slash that stands where attributes end is the one that closes the tag. -/
theorem InsideText.eq_of_slash {attributes : List (String × Json)} {selfClosing : Bool}
    (h : InsideText greedy written attributes selfClosing) (hslash : written.head? = some '/') :
    written = ['/', '>'] := by
  have hblank : ∀ {blanks tail : List Char}, Blanks blanks → blanks ≠ [] →
      (blanks ++ tail).head? ≠ some '/' := by
    intro blanks tail hblanks hne heq
    rw [List.head?_append_of_ne_nil _ hne] at heq
    exact absurd (hblanks _ (List.mem_of_head? heq)) (by decide)
  cases h with
  | @ending blanks selfClosing hblanks =>
    cases blanks with
    | nil =>
      cases selfClosing with
      | true => rfl
      | false => exact absurd hslash (by decide)
    | cons b blanks => exact absurd hslash (hblank hblanks (List.cons_ne_nil b blanks))
  | cons hfirst hrest =>
    cases hfirst with
    | name hblanks hne hname =>
      rw [List.append_assoc] at hslash
      exact absurd hslash (hblank hblanks hne)
    | value hblanks hne hname hbefore hafter hvalue =>
      rw [List.append_assoc] at hslash
      exact absurd hslash (hblank hblanks hne)

/-- By the rule a bare value goes on over a slash behind it, up to the end of its tag. -/
theorem AttributeText.exists_greedy {a : String × Json} {next : Option Char}
    (h : AttributeText false written a next) :
    (∃ a, AttributeText true written a next) ∨
      (next = some '/' ∧ ∃ a, AttributeText true (written ++ ['/']) a (some '>')) := by
  cases h with
  | name hblanks hne hname => exact .inl ⟨_, .name hblanks hne hname⟩
  | @value blanks before after written value name _ hblanks hne hname hbefore hafter hvalue =>
    cases hvalue with
    | quoted hquote hvalue =>
      exact .inl ⟨_, .value hblanks hne hname hbefore hafter (.quoted hquote hvalue)⟩
    | bare hsome hchars hgreedy =>
      by_cases hslash : next = some '/'
      · have hlonger : ∀ c ∈ written ++ ['/'], isBareValueChar c = true := by
          intro c hc
          rcases List.mem_append.1 hc with hin | hlast
          · exact hchars c hin
          · rw [List.mem_singleton.1 hlast]
            decide
        have hvalue : ValueText true (written ++ ['/']) (written ++ ['/']) (some '>') :=
          .bare (by simp) hlonger (fun _ => by decide)
        have hsame : blanks ++ (name.toList ++ (before ++ '=' :: (after ++ written))) ++ ['/'] =
            blanks ++ (name.toList ++ (before ++ '=' :: (after ++ (written ++ ['/'])))) := by
          simp
        refine .inr ⟨hslash, ?_⟩
        rw [hsame]
        exact ⟨_, .value hblanks hne hname hbefore hafter hvalue⟩
      · exact .inl ⟨_, .value hblanks hne hname hbefore hafter
          (.bare hsome hchars fun _ => hslash)⟩

/-- The inside of a tag can also be read by the rule, if with other attributes or another end. -/
theorem InsideText.exists_greedy {attributes : List (String × Json)} {selfClosing : Bool}
    (h : InsideText false written attributes selfClosing) :
    ∃ attributes selfClosing, InsideText true written attributes selfClosing := by
  induction h with
  | ending selfClosing hblanks => exact ⟨[], selfClosing, .ending selfClosing hblanks⟩
  | @cons written rest _ _ _ hfirst hrest ih =>
    obtain ⟨attributes, selfClosing, hinside⟩ := ih
    rcases hfirst.exists_greedy with ⟨a, hgreedy⟩ | ⟨hslash, a, hgreedy⟩
    · exact ⟨a :: attributes, selfClosing, .cons hgreedy hinside⟩
    · -- The slash that would close the tag becomes a part of the last value.
      have hend : InsideText true ['>'] [] false := InsideText.ending false blanks_nil
      have hsame : written ++ ['/'] ++ ['>'] = written ++ rest := by
        simp [hrest.eq_of_slash hslash]
      exact ⟨[a], false, hsame ▸ .cons hgreedy hend⟩

/-- Whatever is a tag without the rule can be read by it. -/
theorem TagText.exists_greedy {t : Tag} (h : TagText false written t) :
    ∃ t, TagText true written t := by
  obtain ⟨hname, hinside⟩ := h
  obtain ⟨attributes, selfClosing, hgreedy⟩ := hinside.exists_greedy
  exact ⟨_, .mk hname hgreedy⟩

end Tag

end Markup

end ViewSchema
