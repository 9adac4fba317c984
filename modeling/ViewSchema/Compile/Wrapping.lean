import ViewSchema.Component.Descriptor

/-!
# Wrapping

Whether a compiled section is put into a wrapper element, and into which tag.
-/

namespace ViewSchema

/-- What happens to one section. -/
inductive WrapperDecision where
  | wrap (tag : String)
  /-- Wrapping is disabled by the section or by its component. -/
  | disabled
  /-- Components of this name are never wrapped. -/
  | excluded
  /-- The section sets a tag of its own. -/
  | ownTag
deriving DecidableEq, Repr

namespace WrapperDecision

/-- The tag of wrappers that nobody names. -/
def defaultTag : String := "section"

def tag? : WrapperDecision → Option String
  | wrap tag => some tag
  | _ => none

/-- The tag named by a section or else by its component. -/
def namedTag (own component : Wrapper) : String :=
  match own, component with
  | .tag name, _ => name
  | _, .tag name => name
  | _, _ => defaultTag

/-- Decide, in this order: disabled at either level, an excluded component, a tag
on the section; otherwise the section is wrapped. -/
def decide (own component : Wrapper) (isExcluded hasOwnTag : Bool) : WrapperDecision :=
  if own = .disabled ∨ component = .disabled then disabled
  else if isExcluded then excluded
  else if hasOwnTag then ownTag
  else wrap (namedTag own component)

end WrapperDecision

end ViewSchema
