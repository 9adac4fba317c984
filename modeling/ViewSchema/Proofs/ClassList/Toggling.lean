import ViewSchema.Proofs.ClassList.Order

/-!
# Taking words out of class lists

Adding divides its text into words, and removing compares the text as a whole with the tokens of the
list.  Tokens are words, so a text with blanks is never among them: nothing removes it, and
toggling it can only add its words.  The answer of a toggle is right all the same.

Main results:

- Theorem `ClassList.mem_add_remove_iff`: what is left of a text that is added and removed.
- Theorem `ClassList.mem_toggle_iff`: the words of a toggled text are there if the answer says so.
- Theorem `ClassList.toggle_toggle_eq_self_iff`: when toggling twice leads back.
- Theorem `ClassList.words_left_panel`: words that are left.
-/

namespace ViewSchema

variable {text word : String}

/-- A word has no other words than itself. -/
theorem IsWord.wordsOf_eq (h : IsWord text) : wordsOf text = [text] :=
  wordsOf_of_word (by simpa using h.1) h.2

/-- Exactly a word is one of its own words. -/
theorem eq_iff_isWord (hword : word ∈ wordsOf text) : word = text ↔ IsWord text := by
  constructor
  · rintro rfl
    exact isWord_of_mem_wordsOf hword
  · intro h
    rw [h.wordsOf_eq] at hword
    exact List.mem_singleton.1 hword

namespace ClassList

variable {list : ClassList}

/-! ## Texts that are no token -/

/-- A text that is not one word is in no ordered list. -/
theorem Ordered.not_mem (h : list.Ordered) (htext : ¬IsWord text) : text ∉ list.tokens :=
  fun hin => htext (h.word text hin)

/-- Removing what is not there changes nothing. -/
theorem remove_of_not_mem (h : text ∉ list.tokens) : list.remove text = list := by
  have hkept : (list.remove text).tokens = list.tokens := by
    rw [tokens_remove, List.filter_eq_self]
    intro token htoken
    have hne : token ≠ text := fun heq => h (heq ▸ htoken)
    simpa using hne
  exact congrArg ClassList.mk hkept

/-- A word that is added to a list without it stands at the end. -/
theorem tokens_add_of_isWord (hword : IsWord text) (h : text ∉ list.tokens) :
    (list.add text).tokens = list.tokens ++ [text] := by
  have hnew : [text].filter (· ∉ list.tokens) = [text] := by simpa using h
  rw [add, hword.wordsOf_eq, tokens_insertAll, hnew]
  rfl

/-! ## Adding and removing -/

/-- Of a text that is added and removed, the words are left exactly if it is not a word itself. -/
theorem mem_add_remove_iff (hword : word ∈ wordsOf text) :
    word ∈ ((list.add text).remove text).tokens ↔ ¬IsWord text := by
  rw [mem_remove, mem_add, ← eq_iff_isWord hword]
  exact and_iff_right (.inr hword)

/-- A word that is new is taken out again. -/
theorem remove_add_of_not_mem (hword : IsWord text) (h : text ∉ list.tokens) :
    (list.add text).remove text = list := by
  have hback : ((list.add text).remove text).tokens = list.tokens := by
    rw [tokens_remove, tokens_add_of_isWord hword h, List.filter_append, ← tokens_remove,
      remove_of_not_mem h]
    simp
  exact congrArg ClassList.mk hback

/-! ## Toggling -/

/-- Toggling switches on what is not there. -/
theorem togglesOn_iff : list.togglesOn text = true ↔ text ∉ list.tokens := by
  simp [togglesOn, contains]

/-- After a toggle, each word of the text is there if the answer says so, and none otherwise. -/
theorem mem_toggle_iff (h : list.Ordered) (hword : word ∈ wordsOf text) :
    word ∈ (list.toggle text).tokens ↔ list.togglesOn text = true := by
  rw [togglesOn_iff]
  by_cases hin : text ∈ list.tokens
  · have hsame : word = text := (eq_iff_isWord hword).2 (h.word text hin)
    rw [toggle_of_mem hin, mem_remove, hsame]
    simp [hin]
  · rw [toggle_of_not_mem hin, mem_add]
    exact iff_of_true (.inr hword) hin

/-- Toggling a text twice, none of whose words is in the list, leads back exactly if the text is a
word. -/
theorem toggle_toggle_eq_self_iff (h : list.Ordered) (hwords : wordsOf text ≠ [])
    (hnone : ∀ word ∈ wordsOf text, word ∉ list.tokens) :
    (list.toggle text).toggle text = list ↔ IsWord text := by
  constructor
  · intro hback
    apply Classical.byContradiction
    intro htext
    -- Both toggles add the words, so that the list has them in the end.
    obtain ⟨word, hword⟩ := List.exists_mem_of_ne_nil _ hwords
    have honce : (list.toggle text).togglesOn text = true :=
      togglesOn_iff.2 ((h.toggle text).not_mem htext)
    have hlast := (mem_toggle_iff (h.toggle text) hword).2 honce
    rw [hback] at hlast
    exact hnone word hword hlast
  · intro htext
    have hout : text ∉ list.tokens := hnone text (by simp [htext.wordsOf_eq])
    have hin : text ∈ (list.add text).tokens := by simp [tokens_add_of_isWord htext hout]
    rw [toggle_of_not_mem hout, toggle_of_mem hin, remove_add_of_not_mem htext hout]

/-- Adding a text and removing it takes all its words out of the list exactly if the text is a word,
and so does toggling it twice lead back.  The answer of a toggle always says whether all words are
in the list, or none. -/
theorem take_out_iff_isWord (h : list.Built) (hwords : wordsOf text ≠ []) :
    ((∀ word ∈ wordsOf text, word ∉ ((list.add text).remove text).tokens) ↔ IsWord text) ∧
      (list.togglesOn text = true ↔ ∀ word ∈ wordsOf text, word ∈ (list.toggle text).tokens) ∧
      (list.togglesOn text = false ↔ ∀ word ∈ wordsOf text, word ∉ (list.toggle text).tokens) ∧
      ((∀ word ∈ wordsOf text, word ∉ list.tokens) →
        ((list.toggle text).toggle text = list ↔ IsWord text)) := by
  obtain ⟨first, hfirst⟩ := List.exists_mem_of_ne_nil _ hwords
  have htoggled : ∀ word ∈ wordsOf text,
      (word ∈ (list.toggle text).tokens ↔ list.togglesOn text = true) :=
    fun _ hword => mem_toggle_iff h.ordered hword
  refine ⟨⟨?_, ?_⟩, ⟨?_, ?_⟩, ⟨?_, ?_⟩, toggle_toggle_eq_self_iff h.ordered hwords⟩
  · intro hall
    apply Classical.byContradiction
    exact fun htext => hall first hfirst ((mem_add_remove_iff hfirst).2 htext)
  · exact fun htext word hword hleft => (mem_add_remove_iff hword).1 hleft htext
  · exact fun hon word hword => (htoggled word hword).2 hon
  · exact fun hall => (htoggled first hfirst).1 (hall first hfirst)
  · intro hoff word hword
    rwa [htoggled word hword, Bool.not_eq_true]
  · intro hall
    rw [← Bool.not_eq_true, ← htoggled first hfirst]
    exact hall first hfirst

/-- The classes of a panel that can be opened and made wide. -/
def panelClasses : ClassList := parse "panel"

/-- A word can be toggled out of a panel again, and two words can not. -/
theorem take_out_panel :
    panelClasses.Built ∧ wordsOf "open" ≠ [] ∧ wordsOf "open wide" ≠ [] ∧
      (∀ word ∈ wordsOf "open", word ∉ panelClasses.tokens) ∧
      (panelClasses.toggle "open").toggle "open" = panelClasses ∧
      panelClasses.togglesOn "open wide" = true ∧
      ∀ word ∈ wordsOf "open wide", word ∈ (panelClasses.toggle "open wide").tokens := by
  have hbuilt : panelClasses.Built := .parse "panel"
  have hopen : wordsOf "open" ≠ [] := by decide +kernel
  have hwide : wordsOf "open wide" ≠ [] := by decide +kernel
  have hnone : ∀ word ∈ wordsOf "open", word ∉ panelClasses.tokens := by decide +kernel
  have hmem : "open" ∈ wordsOf "open" := by decide +kernel
  have hword : IsWord "open" := isWord_of_mem_wordsOf hmem
  have hon : panelClasses.togglesOn "open wide" = true := by decide +kernel
  exact ⟨hbuilt, hopen, hwide, hnone, ((take_out_iff_isWord hbuilt hopen).2.2.2 hnone).2 hword, hon,
    (take_out_iff_isWord hbuilt hwide).2.1.1 hon⟩

/-- Two words that are added at once are not removed, and toggled twice they stay. -/
theorem words_left_panel :
    panelClasses.Built ∧ wordsOf "open wide" = ["open", "wide"] ∧
      panelClasses.tokens = ["panel"] ∧
      ((panelClasses.add "open wide").remove "open wide").tokens = ["panel", "open", "wide"] ∧
      ((panelClasses.toggle "open wide").toggle "open wide").tokens =
        ["panel", "open", "wide"] := by
  refine ⟨.parse "panel", ?_⟩
  decide +kernel

end ClassList

end ViewSchema
