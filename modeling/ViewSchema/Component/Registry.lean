import ViewSchema.Component.Descriptor
import ViewSchema.Text.Similarity

/-!
# Registries

Tables of components by kind, with the icon, svg and graph sets and the names
that are never wrapped. Registering a name again replaces its descriptor.
Specialised tables shadow the table of plain components, and a name found
nowhere gives the base component.
-/

namespace ViewSchema

/-- The tables of a registry. -/
inductive RegistryKind where
  | components | controllers | containers | fields | media | navigation
deriving DecidableEq, Repr

namespace RegistryKind

def name : RegistryKind → String
  | components => "components"
  | controllers => "controllers"
  | containers => "containers"
  | fields => "fields"
  | media => "media"
  | navigation => "navigation"

/-- The order in which tables are searched. -/
def lookupOrder : List RegistryKind :=
  [navigation, media, fields, containers, controllers, components]

/-- The order in which tables are read for suggestions. -/
def listingOrder : List RegistryKind :=
  [components, controllers, containers, fields, media, navigation]

end RegistryKind

/-- The table in which a built-in component is registered. -/
def Renderer.kind : Renderer → RegistryKind
  | .component | .action | .card | .table | .icons | .errorView | .chart => .components
  | .container | .flexContainer | .gridContainer => .containers
  | .controller => .controllers
  | .form | .field | .selectField | .textareaField | .checkboxField => .fields
  | .image | .svg | .video => .media
  | .link | .navLink => .navigation

/-- All built-in renderers. -/
def Renderer.all : List Renderer :=
  [.component, .action, .card, .table, .icons, .errorView, .chart,
    .container, .flexContainer, .gridContainer, .controller,
    .form, .field, .selectField, .textareaField, .checkboxField,
    .image, .svg, .video, .link, .navLink]

/-- Registered components and the sets that renderers read. -/
structure Registry where
  /-- Descriptors with their table; a table has each name once. -/
  entries : List (RegistryKind × Descriptor)
  wrapperExclusions : List String
  icons : List (String × Json)
  svgs : List (String × Json)
  graphs : List (String × Json)
deriving Repr

/-- What a look-up by name found. -/
inductive Resolution where
  | found (descriptor : Descriptor)
  /-- The name is missing or unknown. -/
  | fallback (descriptor : Descriptor)
deriving DecidableEq, Repr

namespace Resolution

def descriptor : Resolution → Descriptor
  | found d => d
  | fallback d => d

def isFallback : Resolution → Bool
  | found _ => false
  | fallback _ => true

end Resolution

namespace Registry

/-- A registry without components. -/
def empty : Registry := ⟨[], [], [], [], []⟩

/-- Put a descriptor into a list of entries, in the place of one of its kind and
name. -/
def setEntry (kind : RegistryKind) (d : Descriptor) :
    List (RegistryKind × Descriptor) → List (RegistryKind × Descriptor)
  | [] => [(kind, d)]
  | entry :: rest =>
    if entry.1 = kind ∧ entry.2.name = d.name then (kind, d) :: rest
    else entry :: setEntry kind d rest

/-- Register a descriptor under its name. -/
def register (r : Registry) (kind : RegistryKind) (d : Descriptor) : Registry :=
  { r with entries := setEntry kind d r.entries }

/-- Never wrap components of this name. -/
def exclude (r : Registry) (name : String) : Registry :=
  if r.wrapperExclusions.contains name then r
  else { r with wrapperExclusions := r.wrapperExclusions ++ [name] }

def addIcons (r : Registry) (set : List (String × Json)) : Registry :=
  { r with icons := Fields.setAll r.icons set }

def addSvgs (r : Registry) (set : List (String × Json)) : Registry :=
  { r with svgs := Fields.setAll r.svgs set }

def addGraphs (r : Registry) (set : List (String × Json)) : Registry :=
  { r with graphs := Fields.setAll r.graphs set }

/-- Built-in components that are never wrapped. -/
def standardExclusions : List String :=
  ["Action", "Icons", "Image", "Link", "NavLink", "Svg"]

/-- The registry of the built-in components. -/
def standard : Registry :=
  let registered := Renderer.all.foldl
    (fun (r : Registry) (renderer : Renderer) => r.register renderer.kind renderer.descriptor)
    empty
  standardExclusions.foldl exclude registered

/-- The descriptor of a name in one table. -/
def get? (r : Registry) (kind : RegistryKind) (name : String) : Option Descriptor :=
  (r.entries.find? fun entry => entry.1 == kind && entry.2.name == name).map Prod.snd

/-- The names of one table, sorted. -/
def names (r : Registry) (kind : RegistryKind) : List String :=
  ((r.entries.filter fun entry => entry.1 == kind).map fun entry => entry.2.name).mergeSort
    (· ≤ ·)

/-- The descriptor of a name in the first table that has it. -/
def resolve? (r : Registry) (name : String) : Option Descriptor :=
  RegistryKind.lookupOrder.findSome? fun kind => r.get? kind name

/-- The component for missing and unknown names; a registered one wins. -/
def defaultComponent (r : Registry) : Descriptor :=
  (r.resolve? Descriptor.base.name).getD .base

/-- Look a name up, with the default component for missing and unknown ones. -/
def resolveOrDefault (r : Registry) (name : Option String) : Resolution :=
  match name.bind r.resolve? with
  | some d => .found d
  | none => .fallback r.defaultComponent

def isWrapperExcluded (r : Registry) (name : String) : Bool := r.wrapperExclusions.contains name

/-- The excluded names, sorted. -/
def exclusions (r : Registry) : List String := r.wrapperExclusions.mergeSort (· ≤ ·)

/-- Names score above this to be suggested. -/
def suggestionThreshold : Float := 0.85

/-- The most similar registered name; of equal scores the last one in listing
order. -/
def suggest? (r : Registry) (name : String) : Option String :=
  let candidates := (RegistryKind.listingOrder.flatMap r.names).map fun candidate =>
    (candidate, Similarity.score name candidate)
  let close := candidates.filter fun entry => suggestionThreshold < entry.2
  (close.foldl
    (fun (best : Option (String × Float)) entry =>
      match best with
      | some b => if entry.2 < b.2 then some b else some entry
      | none => some entry)
    none).map Prod.fst

/-- Every kind and name, in lookup order and then by name. -/
def listing (r : Registry) : List (RegistryKind × String) :=
  RegistryKind.lookupOrder.flatMap fun kind => (r.names kind).map fun name => (kind, name)

end Registry

end ViewSchema
