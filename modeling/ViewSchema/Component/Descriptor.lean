import ViewSchema.Json.Value

/-!
# Component descriptors

What is known about a registered component: the fields it wants compiled, its
wrapper, whether it takes its content as it is, and how it is rendered. Every
component is rendered by one of the built-in renderers.
-/

namespace ViewSchema

/-- The wrapper setting of a component or of a section. -/
inductive Wrapper where
  /-- Nothing is said at this level. -/
  | unset
  /-- Never wrap. -/
  | disabled
  /-- Wrap in this tag. -/
  | tag (name : String)
deriving DecidableEq, Repr

/-- Read the wrapper setting of a schema: `false` and the empty text disable
wrapping, another text names the tag, anything else says nothing. -/
def Wrapper.ofJson? : Option Json → Wrapper
  | some (.bool false) => disabled
  | some (.string s) => if s.isEmpty then disabled else tag s
  | _ => unset

/-- The built-in ways to render a component. -/
inductive Renderer where
  | component | action | card | table | icons | errorView | chart
  | container | flexContainer | gridContainer
  | controller
  | form | field | selectField | textareaField | checkboxField
  | image | svg | video
  | link | navLink
deriving DecidableEq, Repr

/-- A registered component. -/
structure Descriptor where
  name : String
  /-- Fields that are compiled and handed over as rendered props. -/
  slots : List String
  wrapper : Wrapper
  /-- The content is handed over as it is instead of being compiled. -/
  keepsRawContent : Bool
  renderer : Renderer
deriving DecidableEq, Repr

namespace Descriptor

/-- A component without slots and without settings. -/
def plain (name : String) (renderer : Renderer) : Descriptor :=
  { name, slots := [], wrapper := .unset, keepsRawContent := false, renderer }

/-- The component that stands in for unknown ones. -/
def base : Descriptor := plain "Component" .component

end Descriptor

/-- The built-in components of each renderer. -/
def Renderer.descriptor : Renderer → Descriptor
  | .component => .base
  | .action => .plain "Action" .action
  | .card => { Descriptor.plain "Card" .card with slots := ["header", "footer"] }
  | .table => { Descriptor.plain "Table" .table with keepsRawContent := true }
  | .icons => .plain "Icons" .icons
  | .errorView => { Descriptor.plain "ErrorView" .errorView with wrapper := .disabled }
  | .chart => .plain "Chart" .chart
  | .container => .plain "Container" .container
  | .flexContainer => .plain "FlexContainer" .flexContainer
  | .gridContainer => .plain "GridContainer" .gridContainer
  | .controller => .plain "Controller" .controller
  | .form => { Descriptor.plain "Form" .form with wrapper := .tag "div" }
  | .field => .plain "Field" .field
  | .selectField => .plain "SelectField" .selectField
  | .textareaField => .plain "TextareaField" .textareaField
  | .checkboxField => .plain "CheckboxField" .checkboxField
  | .image => .plain "Image" .image
  | .svg => .plain "Svg" .svg
  | .video => .plain "Video" .video
  | .link => .plain "Link" .link
  | .navLink => .plain "NavLink" .navLink

end ViewSchema
