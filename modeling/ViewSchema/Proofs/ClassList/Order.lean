import ViewSchema.Proofs.ClassList.Tokens

/-!
# The order of class lists

However a class list came about, its tokens are words, no two of them alike, and writing them out
and reading them again gives the same list.  An edit takes tokens out of the list and appends those
that are new, in the order in which they come; the tokens that stay keep theirs.

Main results:

- Theorem `ClassList.tokens_insertAll`: what inserting several tokens appends.
- Definition `ClassList.Edit` and theorem `ClassList.tokens_edit`: what an edit does to the tokens.
- Definition `ClassList.Built`: the lists that reading, collecting and editing give.
- Theorem `ClassList.Built.ordered`: they are ordered sets of words.
-/

namespace ViewSchema

namespace ClassList

variable {list : ClassList} {tokens : List String} {text : String}

/-! ## Appending -/

/-- Where no token is repeated, none is erased. -/
theorem eraseDups_of_nodup (h : tokens.Nodup) : tokens.eraseDups = tokens := by
  induction tokens with
  | nil => rfl
  | cons first rest ih =>
    rw [List.nodup_cons] at h
    have hkept : rest.filter (fun token => !token == first) = rest := by
      rw [List.filter_eq_self]
      intro token htoken
      have hne : token ≠ first := fun heq => h.1 (heq ▸ htoken)
      simpa using hne
    rw [List.eraseDups_cons, hkept, ih h.2]

/-- Inserting tokens appends those that are new, each where it comes first. -/
theorem tokens_insertAll (list : ClassList) (tokens : List String) :
    (list.insertAll tokens).tokens =
      list.tokens ++ (tokens.filter (· ∉ list.tokens)).eraseDups := by
  unfold insertAll
  induction tokens generalizing list with
  | nil => simp
  | cons first rest ih =>
    rw [List.foldl_cons, ih]
    by_cases hin : first ∈ list.tokens
    · have hsame : list.insert first = list := if_pos (by simpa [contains] using hin)
      rw [hsame, List.filter_cons_of_neg (by simpa using hin)]
    · have hnew : (list.insert first).tokens = list.tokens ++ [first] :=
        congrArg ClassList.tokens (if_neg (by simpa [contains] using hin))
      have hrest : rest.filter (· ∉ list.tokens ++ [first]) =
          (rest.filter (· ∉ list.tokens)).filter fun token => !token == first := by
        rw [List.filter_filter]
        apply List.filter_congr
        intro token _
        by_cases heq : token = first <;> simp [heq]
      rw [hnew, hrest, List.filter_cons_of_pos (by simpa using hin), List.eraseDups_cons,
        List.append_assoc, List.singleton_append]

/-! ## Edits -/

/-- A change of a class list. -/
inductive Edit where
  | add (text : String)
  | remove (token : String)
  | toggle (text : String)
  | extend (other : ClassList)

/-- The list after an edit. -/
def edit (list : ClassList) : Edit → ClassList
  | .add text => list.add text
  | .remove token => list.remove token
  | .toggle text => list.toggle text
  | .extend other => list.extend other

namespace Edit

/-- What an edit takes out of a list. -/
def taken (list : ClassList) : Edit → List String
  | add _ | extend _ => []
  | remove token => [token]
  | toggle text => if text ∈ list.tokens then [text] else []

/-- What an edit brings into a list, in order. -/
def brought (list : ClassList) : Edit → List String
  | add text => wordsOf text
  | remove _ => []
  | toggle text => if text ∈ list.tokens then [] else wordsOf text
  | extend other => other.tokens

end Edit

/-- Toggling removes what is there. -/
theorem toggle_of_mem (h : text ∈ list.tokens) : list.toggle text = list.remove text :=
  if_pos (by simpa [contains] using h)

/-- Toggling adds what is not there. -/
theorem toggle_of_not_mem (h : text ∉ list.tokens) : list.toggle text = list.add text :=
  if_neg (by simpa [contains] using h)

/-- Removing leaves all other tokens in their order. -/
theorem tokens_remove (list : ClassList) (token : String) :
    (list.remove token).tokens = list.tokens.filter (· ∉ [token]) := by
  apply List.filter_congr
  intro other _
  by_cases heq : other = token <;> simp [heq]

/-- An edit keeps the order of the tokens that it leaves in the list, and appends those that are
new. -/
theorem tokens_edit (list : ClassList) (edit : Edit) :
    (list.edit edit).tokens = list.tokens.filter (· ∉ edit.taken list) ++
      ((edit.brought list).filter (· ∉ list.tokens)).eraseDups := by
  have hnone : list.tokens.filter (· ∉ ([] : List String)) = list.tokens := by simp
  cases edit with
  | add text => exact (tokens_insertAll list _).trans (by rw [Edit.taken, hnone]; rfl)
  | extend other => exact (tokens_insertAll list _).trans (by rw [Edit.taken, hnone]; rfl)
  | remove token => simpa [edit, Edit.brought, Edit.taken] using tokens_remove list token
  | toggle text =>
    by_cases hin : text ∈ list.tokens
    · rw [Edit.taken, if_pos hin, Edit.brought, if_pos hin, List.filter_nil, List.eraseDups_nil,
        List.append_nil, ← tokens_remove, ← toggle_of_mem hin]
      rfl
    · rw [Edit.taken, if_neg hin, Edit.brought, if_neg hin, hnone]
      exact (congrArg ClassList.tokens (toggle_of_not_mem hin)).trans (tokens_insertAll list _)

/-! ## Ordered sets of words -/

/-- Lists of distinct words. -/
structure Ordered (list : ClassList) : Prop where
  word : ∀ token ∈ list.tokens, IsWord token
  distinct : list.tokens.Nodup

namespace Ordered

/-- The empty list is ordered. -/
theorem empty : ClassList.empty.Ordered := ⟨by simp [ClassList.empty], List.nodup_nil⟩

/-- Inserting words keeps a list ordered. -/
theorem insertAll (h : list.Ordered) (hwords : ∀ token ∈ tokens, IsWord token) :
    (list.insertAll tokens).Ordered where
  word token htoken := by
    rcases mem_insertAll.1 htoken with hold | hnew
    · exact h.word token hold
    · exact hwords token hnew
  distinct := nodup_insertAll h.distinct tokens

/-- Adding a text keeps a list ordered, as it is divided into words. -/
theorem add (h : list.Ordered) (text : String) : (list.add text).Ordered :=
  h.insertAll fun _ hword => isWord_of_mem_wordsOf hword

/-- Laying an ordered list behind keeps a list ordered. -/
theorem extend {other : ClassList} (h : list.Ordered) (hother : other.Ordered) :
    (list.extend other).Ordered :=
  h.insertAll hother.word

/-- Removing keeps a list ordered. -/
theorem remove (h : list.Ordered) (token : String) : (list.remove token).Ordered where
  word other hother := h.word other (mem_remove.1 hother).1
  distinct := h.distinct.filter _

/-- Toggling keeps a list ordered. -/
theorem toggle (h : list.Ordered) (text : String) : (list.toggle text).Ordered := by
  unfold ClassList.toggle
  split
  · exact h.remove text
  · exact h.add text

/-- An edit keeps a list an ordered set, if what it is extended by is one. -/
theorem edit (h : list.Ordered) (edit : Edit)
    (hother : ∀ other, edit = .extend other → other.Ordered) : (list.edit edit).Ordered := by
  cases edit with
  | add text => exact h.add text
  | remove token => exact h.remove token
  | toggle text => exact h.toggle text
  | extend other => exact h.extend (hother other rfl)

/-- A list that is read from a text is ordered. -/
theorem parse (text : String) : (ClassList.parse text).Ordered := empty.add text

/-- So is one that is collected from several texts. -/
theorem collect (texts : List String) : (ClassList.collect texts).Ordered := by
  have hfrom : ∀ list : ClassList, list.Ordered → (texts.foldl ClassList.add list).Ordered := by
    induction texts with
    | nil => exact fun _ h => h
    | cons text rest ih => exact fun list h => ih _ (h.add text)
  exact hfrom _ empty

mutual

/-- So is one that is read from any value. -/
theorem ofJson : ∀ value : Json, (ClassList.ofJson value).Ordered
  | .string text => by
    rw [ClassList.ofJson]
    exact parse text
  | .array items => by
    rw [ClassList.ofJson]
    exact ofItems empty items
  | .null | .bool _ | .number _ | .object _ => by
    rw [ClassList.ofJson] <;> first | exact empty | exact fun _ => Json.noConfusion

/-- Items of a value are added to an ordered list. -/
theorem ofItems {list : ClassList} (h : list.Ordered) :
    ∀ items : List Json, (ClassList.ofItems list items).Ordered
  | [] => by
    rw [ClassList.ofItems]
    exact h
  | item :: rest => by
    rw [ClassList.ofItems]
    exact ofItems (h.extend (ofJson item)) rest

end

/-- What is written out is read back. -/
theorem parse_text (h : list.Ordered) : ClassList.parse list.text = list := by
  have hempty : list.tokens.filter (· ∉ ClassList.empty.tokens) = list.tokens := by
    simp [ClassList.empty]
  have hread : (ClassList.parse list.text).tokens = list.tokens := by
    rw [ClassList.parse, ClassList.add, ClassList.text, wordsOf_intercalate h.word,
      tokens_insertAll, hempty, eraseDups_of_nodup h.distinct]
    rfl
  exact congrArg ClassList.mk hread

end Ordered

/-- The lists that reading, collecting and editing give. -/
inductive Built : ClassList → Prop
  | parse (text : String) : Built (.parse text)
  | ofJson (value : Json) : Built (.ofJson value)
  | collect (texts : List String) : Built (.collect texts)
  | edit {list : ClassList} (edit : Edit) (built : Built list)
      (other : ∀ other, edit = .extend other → Built other) : Built (list.edit edit)

/-- Every list that can be built is ordered. -/
theorem Built.ordered (h : list.Built) : list.Ordered := by
  induction h with
  | parse text => exact .parse text
  | ofJson value => exact .ofJson value
  | collect texts => exact .collect texts
  | edit edit _ _ ih ihOther => exact ih.edit edit ihOther

/-- Every class list consists of distinct words and is what reading its text gives, and every edit
takes tokens out and appends new ones, without moving any. -/
theorem ordered_set (h : list.Built) :
    (∀ token ∈ list.tokens, token ≠ "" ∧ ∀ c ∈ token.toList, isBlank c = false) ∧
      list.tokens.Nodup ∧
      parse list.text = list ∧
      ∀ edit : Edit, (list.edit edit).tokens = list.tokens.filter (· ∉ edit.taken list) ++
        ((edit.brought list).filter (· ∉ list.tokens)).eraseDups :=
  ⟨h.ordered.word, h.ordered.distinct, h.ordered.parse_text, tokens_edit list⟩

/-- The classes of a menu, after it was opened and extended by a nested list. -/
def menuClasses : ClassList :=
  ((collect [" menu  side", "menu"]).edit (.toggle "open wide")).edit
    (.extend (.ofJson (.array [.string "md", .array [.string "side\tdark", .null]])))

/-- The classes of a menu, with one toggled off and some added. -/
theorem ordered_set_menu :
    menuClasses.Built ∧
      menuClasses.tokens = ["menu", "side", "open", "wide", "md", "dark"] ∧
      menuClasses.tokens.Nodup ∧
      parse menuClasses.text = menuClasses ∧
      (menuClasses.edit (.toggle "open")).tokens = ["menu", "side", "wide", "md", "dark"] ∧
      (menuClasses.edit (.add "xl side\nlast xl")).tokens =
        ["menu", "side", "open", "wide", "md", "dark", "xl", "last"] := by
  have hbuilt : menuClasses.Built := by
    refine .edit _ (.edit _ (.collect _) ?_) ?_
    · intro other heq
      cases heq
    · intro other heq
      cases heq
      exact .ofJson _
  obtain ⟨-, hdistinct, hread, hedit⟩ := ordered_set hbuilt
  have htokens : menuClasses.tokens = ["menu", "side", "open", "wide", "md", "dark"] := by
    decide +kernel
  refine ⟨hbuilt, htokens, hdistinct, hread, ?_, ?_⟩
  · rw [hedit, htokens]
    decide +kernel
  · rw [hedit, htokens]
    decide +kernel

end ClassList

end ViewSchema
