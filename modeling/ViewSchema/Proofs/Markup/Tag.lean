import ViewSchema.Proofs.Json.Fields
import ViewSchema.Proofs.Markup.Entity
import ViewSchema.Proofs.Markup.Grammar

/-!
# Reading written tags

A tag that is written with quoted and escaped values is read back as it is, whatever text
follows it: what is written is a tag of the grammar, and its values are decoded to what they were.

Main results:

- Theorem `Tag.insideText_written`: written attributes and their end are the inside of a tag.
- Theorem `Tag.read?_written`: a whole tag is read back; `Tag.read?_opening` and
  `Tag.read?_closing` are its two cases.
-/

namespace ViewSchema

namespace Markup

namespace Tag

/-- An attribute as it is written: a text in quotes, anything else as its name only. -/
def writtenAttribute (a : String × Json) : List Char :=
  match a.2 with
  | .string value =>
    ' ' :: (a.1.toList ++ '=' :: '"' :: (value.toList.flatMap Entity.escapeAttributeChar ++ ['"']))
  | _ => ' ' :: a.1.toList

/-- An attribute that writing does not change: it is true or a text. -/
structure IsAttribute (a : String × Json) : Prop where
  name : IsAttributeName a.1
  value : a.2 = .bool true ∨ ∃ text, a.2 = .string text

/-- The end of a tag as it is written. -/
def writtenEnd (selfClosing : Bool) : List Char := if selfClosing then [' ', '/', '>'] else ['>']

theorem blanks_space : Blanks [' '] := by
  intro c hc
  rw [List.mem_singleton.1 hc]
  decide

/-- A written attribute is one of the grammar, whatever stands behind it. -/
theorem attributeText_written {a : String × Json} (ha : IsAttribute a) (next : Option Char) :
    AttributeText true (writtenAttribute a) a next := by
  obtain ⟨hname, hvalue⟩ := ha
  obtain ⟨name, value⟩ := a
  dsimp only at hname hvalue
  rcases hvalue with rfl | ⟨text, rfl⟩
  · exact .name blanks_space (List.cons_ne_nil _ _) hname
  · have hquoted : '"' ∉ text.toList.flatMap Entity.escapeAttributeChar := by
      intro hc
      have hne := Entity.ne_quote_of_mem_escapeAttribute hc
      simp at hne
    have hvalue : ValueText true
        ('"' :: (text.toList.flatMap Entity.escapeAttributeChar ++ ['"']))
        (text.toList.flatMap Entity.escapeAttributeChar) next := .quoted (.inl rfl) hquoted
    have hwritten := AttributeText.value blanks_space (List.cons_ne_nil _ _) hname blanks_nil
      blanks_nil hvalue
    rw [← Entity.ofList_decodeChars, Entity.decodeChars_escapeAttribute, String.ofList_toList]
      at hwritten
    exact hwritten

/-- The end of a tag is one of the grammar. -/
theorem insideText_writtenEnd (selfClosing : Bool) :
    InsideText true (writtenEnd selfClosing) [] selfClosing := by
  cases selfClosing with
  | true => exact .ending true blanks_space
  | false => exact .ending false blanks_nil

/-- Written attributes and the end behind them are the inside of a tag. -/
theorem insideText_written {attributes : List (String × Json)}
    (h : ∀ a ∈ attributes, IsAttribute a) (selfClosing : Bool) :
    InsideText true (attributes.flatMap writtenAttribute ++ writtenEnd selfClosing) attributes
      selfClosing := by
  induction attributes with
  | nil => exact insideText_writtenEnd selfClosing
  | cons a others ih =>
    have hothers := ih fun a ha => h a (List.mem_cons_of_mem _ ha)
    have hfirst := attributeText_written (h a List.mem_cons_self)
    rw [List.flatMap_cons, List.append_assoc]
    exact .cons (hfirst _) hothers

/-- A written tag is read back, whatever stands behind it. -/
theorem read?_written {name : String} {attributes : List (String × Json)}
    (hname : IsTagName name) (hattributes : ∀ a ∈ attributes, IsAttribute a)
    (hdistinct : Fields.Distinct attributes) (closing selfClosing : Bool) (rest : List Char) :
    read? (slashIf closing ++ (name.toList ++ (attributes.flatMap writtenAttribute ++
        (writtenEnd selfClosing ++ rest)))) =
      some ({ closing, name, attributes, selfClosing }, rest) := by
  have htext : TagText true
      (slashIf closing ++
        (name.toList ++ (attributes.flatMap writtenAttribute ++ writtenEnd selfClosing)))
      { closing, name, attributes := Fields.ofList attributes, selfClosing } :=
    .mk hname (insideText_written hattributes selfClosing)
  have hread := htext.read? rest
  rw [Fields.ofList_of_distinct hdistinct] at hread
  simpa using hread

/-- A written opening tag is read back. -/
theorem read?_opening {name : String} {attributes : List (String × Json)}
    (hname : IsTagName name) (hattributes : ∀ a ∈ attributes, IsAttribute a)
    (hdistinct : Fields.Distinct attributes) (selfClosing : Bool) (rest : List Char) :
    read? (name.toList ++ (attributes.flatMap writtenAttribute ++
        (writtenEnd selfClosing ++ rest))) =
      some ({ closing := false, name, attributes, selfClosing }, rest) :=
  read?_written hname hattributes hdistinct false selfClosing rest

/-- A written closing tag is read back. -/
theorem read?_closing {name : String} (hname : IsTagName name) (rest : List Char) :
    read? ('/' :: (name.toList ++ '>' :: rest)) =
      some ({ closing := true, name, attributes := [], selfClosing := false }, rest) := by
  have hnone : ∀ a ∈ ([] : List (String × Json)), IsAttribute a := by simp
  exact read?_written hname hnone .nil true false rest

end Tag

end Markup

end ViewSchema
