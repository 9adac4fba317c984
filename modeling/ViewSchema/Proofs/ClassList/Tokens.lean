import ViewSchema.ClassList
import ViewSchema.Proofs.Text.Segments

/-!
# Tokens of class lists

A class list is a set that remembers an order.  What each operation does to it is said by its
members, and all operations keep them distinct.

Main results:

- Theorems `ClassList.mem_add` and `ClassList.mem_removeAll`: the members
  after each operation.
- Theorems `ClassList.nodup_add`, `ClassList.nodup_extend` and `ClassList.nodup_removeAll`: members
  stay distinct.
- Theorem `wordsOf_of_word`: a text without blanks is one word.
- Theorem `wordsOf_intercalate`: words with blanks between them are read back.
-/

namespace ViewSchema

/-- A word: a text that is not empty and has no blanks. -/
def IsWord (text : String) : Prop := text ≠ "" ∧ ∀ c ∈ text.toList, isBlank c = false

/-- Texts are divided into words. -/
theorem isWord_of_mem_wordsOf {text word : String} (h : word ∈ wordsOf text) : IsWord word := by
  obtain ⟨piece, hpiece, rfl⟩ := List.mem_map.1 h
  obtain ⟨hne, hplain⟩ := of_mem_nonemptyPieces hpiece
  constructor
  · intro hempty
    exact hne (by simpa using congrArg String.toList hempty)
  · rwa [String.toList_ofList]

/-- Words with blanks between them are read back. -/
theorem wordsOf_intercalate {words : List String} (h : ∀ word ∈ words, IsWord word) :
    wordsOf (String.intercalate " " words) = words := by
  rw [wordsOf, nonemptyPieces_intercalate_of_none (by decide) rfl h]
  simp

/-- A text without blanks is one word, unless it is empty. -/
theorem wordsOf_of_word {text : String} (hne : text.isEmpty = false)
    (h : ∀ c ∈ text.toList, isBlank c = false) : wordsOf text = [text] := by
  have hchars : text.toList ≠ [] := by
    intro hnil
    simp [String.toList_eq_nil_iff.1 hnil] at hne
  simp [wordsOf, nonemptyPieces_of_none h hchars]

namespace ClassList

variable {list other : ClassList} {token text : String} {tokens : List String}

/-! ## Members -/

/-- Inserting puts one token into the set. -/
theorem mem_insert : token ∈ (list.insert text).tokens ↔ token ∈ list.tokens ∨ token = text := by
  unfold insert contains
  split
  · rename_i hin
    have hmem : text ∈ list.tokens := by simpa using hin
    constructor
    · exact .inl
    · rintro (h | rfl)
      · exact h
      · exact hmem
  · simp

/-- Inserting several tokens puts each of them into the set. -/
theorem mem_insertAll :
    token ∈ (list.insertAll tokens).tokens ↔ token ∈ list.tokens ∨ token ∈ tokens := by
  unfold insertAll
  induction tokens generalizing list with
  | nil => simp
  | cons first rest ih => rw [List.foldl_cons, ih, mem_insert, or_assoc, List.mem_cons]

/-- Tokens can be inserted in two goes. -/
theorem insertAll_append (list : ClassList) (tokens others : List String) :
    list.insertAll (tokens ++ others) = (list.insertAll tokens).insertAll others :=
  List.foldl_append

/-- Adding a text puts its words into the set, not the text itself. -/
theorem mem_add : token ∈ (list.add text).tokens ↔ token ∈ list.tokens ∨ token ∈ wordsOf text :=
  mem_insertAll

/-- Removing takes the text out as a whole: it is compared with tokens and not divided into
words. -/
theorem mem_remove : token ∈ (list.remove text).tokens ↔ token ∈ list.tokens ∧ token ≠ text := by
  simp [remove]

/-- Tokens that are removed one after the other are filtered out, in whatever order. -/
theorem removeAll_eq (list : ClassList) (tokens : List String) :
    tokens.foldl remove list = ⟨list.tokens.filter fun token => token ∉ tokens⟩ := by
  induction tokens generalizing list with
  | nil =>
    have hall : list.tokens.filter (fun token => token ∉ ([] : List String)) = list.tokens := by
      simp
    rw [List.foldl_nil, hall]
  | cons first rest ih =>
    rw [List.foldl_cons, ih, remove, List.filter_filter]
    congr 2
    funext token
    by_cases h : token = first <;> simp [h]

/-- Removing one text after the other takes out all of them and nothing else. -/
theorem mem_removeAll : token ∈ (tokens.foldl remove list).tokens ↔
    token ∈ list.tokens ∧ token ∉ tokens := by
  simp [removeAll_eq]

/-! ## Distinct members -/

/-- A token that is there already is not inserted again. -/
theorem nodup_insert (h : list.tokens.Nodup) (token : String) :
    (list.insert token).tokens.Nodup := by
  unfold insert contains
  split
  · exact h
  · rename_i hout
    have hfresh : token ∉ list.tokens := by simpa using hout
    rw [List.nodup_append]
    refine ⟨h, by simp, ?_⟩
    intro a ha b hb heq
    rw [List.mem_singleton] at hb
    exact hfresh (hb ▸ heq ▸ ha)

/-- Members stay distinct, also if the inserted tokens are not. -/
theorem nodup_insertAll (h : list.tokens.Nodup) (tokens : List String) :
    (list.insertAll tokens).tokens.Nodup := by
  unfold insertAll
  induction tokens generalizing list with
  | nil => exact h
  | cons first rest ih => exact ih (nodup_insert h first)

/-- Members stay distinct under adding, whatever the text repeats. -/
theorem nodup_add (h : list.tokens.Nodup) (text : String) : (list.add text).tokens.Nodup :=
  nodup_insertAll h _

/-- Members stay distinct when another list is laid behind. -/
theorem nodup_extend (h : list.tokens.Nodup) (other : ClassList) :
    (list.extend other).tokens.Nodup := nodup_insertAll h _

/-- Members stay distinct under removing. -/
theorem nodup_removeAll (h : list.tokens.Nodup) (tokens : List String) :
    (tokens.foldl remove list).tokens.Nodup := by
  rw [removeAll_eq]
  exact h.filter _

end ClassList

end ViewSchema
