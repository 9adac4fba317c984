import ViewSchema.Component.Registry
import ViewSchema.Json.Text
import ViewSchema.Markup.Tree
import ViewSchema.Merge
import ViewSchema.Node.Basic

/-!
# Built-in renderers

How each built-in component turns an element into a tree. Renderers are thin:
they put props and children onto plain tags and never create components.

Main definitions:

- `RenderContext` is what a renderer sees besides its element.
- `Renderer.render` renders an element by one of the built-in renderers.
-/

namespace ViewSchema

/-- What a renderer sees besides its element. -/
structure RenderContext where
  registry : Registry
  /-- The size of the viewport, once it is known. -/
  viewport : Option Size
deriving Repr

namespace Markup

mutual

/-- Markup as plain tags. -/
def toHostNode : Markup → Node
  | text value => .ofText value
  | tag name attributes children =>
    .element
      { key := none, kind := .host name, props := propsOf attributes, rendered := []
        children := toHostNodes children }

def toHostNodes : List Markup → List Node
  | [] => []
  | m :: ms => toHostNode m :: toHostNodes ms

end

end Markup

namespace Render

/-- A tag with a class list and children. -/
def box (tag classes : String) (children : List Node) : Node :=
  .element (((Element.host tag).withClasses (.parse classes)).append children)

/-- A tag with children. -/
def plainBox (tag : String) (children : List Node) : Node :=
  .element ((Element.host tag).append children)

/-- The classes of an element: its name and both class props. -/
def elementClasses (e : Element Node) : ClassList :=
  ((ClassList.empty.add ((e.string? "name").getD "")).extend e.classes).extend
    (.ofJson? (e.prop? "className"))

/-- Set a prop when there is a value for it. -/
def setPresent (e : Element Node) (name : String) (value : Option Json) : Element Node :=
  match value with
  | some v => e.withProp name v
  | none => e

/-- A tag that carries the presentational props of an element: classes, style,
identifier and the extra props. -/
def hostFrom (e : Element Node) (tag extraClasses : String) : Element Node :=
  let host := (Element.host tag).withClasses ((elementClasses e).add extraClasses)
  let styled := setPresent host "style" ((e.prop? "style").filter Json.isObject)
  let identified := setPresent styled "id" (e.prop? "id")
  let extra := ((e.prop? "_props").bind Json.object?).getD []
  { identified with props := Fields.setAll identified.props extra }

/-- Copy props that are present. -/
def copyProps (host e : Element Node) (names : List String) : Element Node :=
  names.foldl (fun acc name => setPresent acc name (e.prop? name)) host

/-! ## Components -/

/-- Props that make the base component render a tag of its own. -/
def hostProps : List String := ["tag", "classes", "className", "style", "id", "_props"]

def component (e : Element Node) : Node :=
  let carriesHost := hostProps.any fun name =>
    match e.prop? name with
    | some value => !value.isNull
    | none => false
  if carriesHost then
    .element ((hostFrom e ((e.string? "tag").getD "div") "").append e.children)
  else .ofList e.children

def action (e : Element Node) : Node :=
  let host := (hostFrom e "button" "action").withProp "type"
    (.string ((e.string? "type").getD "button"))
  .element ((copyProps host e ["disabled", "value", "title"]).append e.children)

/-- A rendered prop in a tag of its own, if it is present. -/
def part (tag classes : String) (node : Option Node) : List Node :=
  match node with
  | some n => [box tag classes [n]]
  | none => []

def card (e : Element Node) : Node :=
  .element ((hostFrom e "div" "card").append
    (part "header" "card-header" (e.rendered? "header")
      ++ [box "div" "card-body" e.children]
      ++ part "footer" "card-footer" (e.rendered? "footer")))

/-- The label of a column, which is its member of that name or the column
itself. -/
def labelOf (column : Json) : Json := (column.member? "label").getD column

/-- A table from raw content with columns and rows. -/
def table (e : Element Node) : Node :=
  let content := (e.prop? "content").getD .null
  let columns := ((content.member? "columns").bind Json.array?).getD []
  let rows := ((content.member? "rows").bind Json.array?).getD []
  let head := plainBox "thead"
    [plainBox "tr" (columns.map fun c => plainBox "th" [.ofText (labelOf c).displayText])]
  let body := plainBox "tbody" (rows.map fun row =>
    plainBox "tr" ((row.array?.getD []).map fun cell =>
      plainBox "td" [.ofText cell.displayText]))
  .element ((hostFrom e "table" "table").append [head, body])

/-- The paths of an icon definition. -/
def iconPaths (definition : Json) : List String :=
  match (definition.member? "paths").or (definition.member? "path") with
  | some (.array items) => items.filterMap Json.string?
  | some (.string d) => [d]
  | _ => []

/-- The coordinate system of icons that name none. -/
def defaultViewBox : String := "0 0 24 24"

def icons (e : Element Node) (ctx : RenderContext) : Node :=
  let icon := (e.string? "icon").getD ""
  match ctx.registry.icons.lookup icon with
  | none => .element (hostFrom e "i" ("icon icon-" ++ icon))
  | some definition =>
    let (viewBox, paths) := match definition with
      | .string d => (defaultViewBox, [d])
      | other =>
        (((other.member? "viewBox").bind Json.string?).getD defaultViewBox, iconPaths other)
    let size := (e.prop? "size").getD (.int 16)
    let host := (((hostFrom e "svg" ("icon " ++ icon)).withProp "viewBox"
      (.string viewBox)).withProp "width" size).withProp "height" size
    .element (host.append
      (paths.map fun d => .element ((Element.host "path").withProp "d" (.string d))))

/-- An error message with the value it is about. -/
def errorNode (message : String) (value : Json) : Node :=
  .element ((((Element.host "div").withClasses (.parse "goat-error")).withProp "role"
    (.string "alert")).append
      [plainBox "strong" [.ofText message], plainBox "pre" [.ofText value.pretty]])

def errorView (e : Element Node) : Node :=
  errorNode ((e.string? "message").getD "Invalid schema") ((e.prop? "context").getD .null)

def chart (e : Element Node) (ctx : RenderContext) : Node :=
  let graph := (e.string? "graph").getD ""
  match ctx.registry.graphs.lookup graph with
  | none => .element (hostFrom e "div" "chart chart-missing")
  | some _ =>
    let data := ((e.prop? "data").map Json.text).getD ""
    .element (((hostFrom e "canvas" "chart").withProp "data-chart" (.string graph)).withProp
      "data-chart-data" (.string data))

/-! ## Containers -/

/-- What a container shows until its size is known. -/
def loadingPlaceholder (name : String) : Node :=
  .element (((Element.host "div").withClasses (.parse (name ++ "-loading loading"))).withProp
    "role" (.string "status"))

/-- The breakpoint table of an element. -/
def tableOf (e : Element Node) : BreakpointTable :=
  ((e.prop? "breakpoints").bind BreakpointTable.ofJson?).getD .standard

/-- Class list with the active breakpoint and the classes configured for it. -/
def addBreakpoint (e : Element Node) (width : Nat) (classes : ClassList) : ClassList :=
  match (tableOf e).resolveOrFirst? width with
  | none => classes
  | some name =>
    (classes.add name).extend
      (.ofJson? ((e.prop? "breakpointClasses").bind fun byName => byName.member? name))

def container (e : Element Node) (ctx : RenderContext) : Node :=
  match ctx.viewport with
  | none => loadingPlaceholder ((e.string? "name").getD "container")
  | some viewport =>
    let host := hostFrom e ((e.string? "tag").getD "div") "container"
    let classes := (addBreakpoint e viewport.width host.classes).add
      (Orientation.ofSize viewport).name
    .element ((host.withProp "classes" classes.toJson).append e.children)

def flexContainer (e : Element Node) : Node :=
  let host := hostFrom e "div" "flex-container"
  let style := [("display", Json.string "flex")]
  let style := match e.string? "direction" with
    | some direction => Fields.set style "flexDirection" (.string direction)
    | none => style
  let style := match e.prop? "gap" with
    | some gap => Fields.set style "gap" gap
    | none => style
  let style := match host.prop? "style" with
    | some own => deepMerge (.object style) own
    | none => .object style
  .element ((host.withProp "style" style).append e.children)

mutual

/-- The cells that a node fills: fragments are opened, nothing is dropped. -/
def cells : Node → List Node
  | .nothing => []
  | .fragment _ children => cellsOf children
  | .text key value => [.text key value]
  | .element e => [.element e]

def cellsOf : List Node → List Node
  | [] => []
  | c :: cs => cells c ++ cellsOf cs

end

/-- The column classes that apply at the viewport. A map by breakpoint cascades
up to the active one, and applies only once a viewport is known. -/
def columnClasses (e : Element Node) (ctx : RenderContext) : Json :=
  match e.prop? "colClasses", ctx.viewport with
  | some (.object byName), some viewport =>
    match (tableOf e).resolveOrFirst? viewport.width with
    | some active =>
      ((((tableOf e).upTo active).filterMap fun name => byName.lookup name).getLast?).getD .null
    | none => .null
  | some (.object _), none => .null
  | some other, _ => other
  | none, _ => .null

/-- The classes of a cell: those of a list are taken by index, the last entry
repeating. -/
def cellClasses (columns : Json) (index : Nat) : ClassList :=
  match columns with
  | .array items => .ofJson? (items[index]?.or items.getLast?)
  | other => .ofJson other

/-- A numbered cell. -/
def gridCell (tag : String) (columns : Json) (index : Nat) (child : Node) : Node :=
  let parity := if index % 2 = 1 then "even" else "odd"
  let classes := ((ClassList.parse parity).add ("col-num-" ++ toString index)).extend
    (cellClasses columns index)
  .element ((((Element.host tag).withKey (toString index)).withClasses classes).append [child])

def gridContainer (e : Element Node) (ctx : RenderContext) : Node :=
  let tag := (e.string? "colTag").getD "div"
  let columns := columnClasses e ctx
  .element ((hostFrom e "div" "grid-container").append
    ((cellsOf e.children).zipIdx.map fun (child, i) => gridCell tag columns i child))

def controller (e : Element Node) : Node :=
  .element ((hostFrom e "div" "controller").append e.children)

/-! ## Fields -/

def form (e : Element Node) : Node :=
  .element ((copyProps (hostFrom e "form" "form") e ["action", "method", "noValidate"]).append
    e.children)

/-- The label, message and error of a field around its control. -/
def fieldShell (e : Element Node) (kind : String) (control : Element Node)
    (labelAfter : Bool) : Node :=
  let name := (e.string? "name").getD ""
  let label := match e.rendered? "label" with
    | some l => [Node.element (((Element.host "label").withProp "for" (.string name)).append [l])]
    | none => []
  let head := if labelAfter then [Node.element control] ++ label else label ++ [.element control]
  box "div" ("field " ++ kind)
    (head ++ part "small" "form-text" (e.rendered? "message")
      ++ part "div" "invalid-feedback" (e.rendered? "errorMessage") ++ e.children)

/-- Attributes that a field hands on to its control. -/
def fieldAttributes : List String :=
  ["value", "required", "disabled", "readOnly", "min", "max", "step", "pattern",
    "autoComplete", "multiple"]

/-- The control of a field. -/
def control (e : Element Node) (tag : String) : Element Node :=
  let name := Json.string ((e.string? "name").getD "")
  let host := ((hostFrom e tag "form-control").withProp "name" name).withProp "id" name
  let placeholder := ((e.rendered? "placeholder").map Node.textContent).getD ""
  let host :=
    if placeholder.isEmpty then host else host.withProp "placeholder" (.string placeholder)
  copyProps host e fieldAttributes

def field (e : Element Node) : Node :=
  let input := (control e "input").withProp "type" (.string ((e.string? "type").getD "text"))
  fieldShell e "input-field" input false

/-- An element without one of its props. -/
def dropProp (e : Element Node) (name : String) : Element Node :=
  { e with props := Fields.swapRemove e.props name }

/-- The option that a value or an object with value and label stands for. -/
def selectOption (selected : Option String) (option : Json) : Node :=
  let value := ((option.member? "value").getD option).displayText
  let label := (labelOf option).displayText
  let node := (Element.host "option").withProp "value" (.string value)
  let node := if selected = some value then node.withProp "selected" (.bool true) else node
  .element (node.append [.ofText label])

def selectField (e : Element Node) : Node :=
  let selected := (e.prop? "value").map Json.displayText
  let options := ((e.prop? "options").bind Json.array?).getD []
  let select := (dropProp (control e "select") "value").append
    (options.map (selectOption selected))
  fieldShell e "select-field" select false

def textareaField (e : Element Node) : Node :=
  let whole := control e "textarea"
  let value := ((whole.prop? "value").map Json.displayText).getD ""
  let textarea := (copyProps (dropProp whole "value") e ["rows", "cols"]).append [.ofText value]
  fieldShell e "textarea-field" textarea false

def checkboxField (e : Element Node) : Node :=
  let input := dropProp ((control e "input").withProp "type" (.string "checkbox")) "value"
  let checked := ((e.prop? "value").or (e.prop? "checked")).bind Json.bool?
  let input := if checked = some true then input.withProp "checked" (.bool true) else input
  fieldShell e "checkbox-field" input true

/-! ## Media and navigation -/

def image (e : Element Node) : Node :=
  let host := (hostFrom e "img" "image").withProp "alt" (.string ((e.string? "alt").getD ""))
  .element (copyProps host e ["src", "width", "height", "loading"])

def svg (e : Element Node) (ctx : RenderContext) : Node :=
  let name := (e.string? "svg").getD ""
  match (ctx.registry.svgs.lookup name).bind Json.string? with
  | none => .element (hostFrom e "i" ("svg svg-" ++ name))
  | some source =>
    .element ((hostFrom e "span" "svg").append (Markup.toHostNodes (Markup.parse source)))

def video (e : Element Node) : Node :=
  .element ((copyProps (hostFrom e "video" "video") e
    ["src", "poster", "controls", "autoPlay", "muted", "loop", "width", "height"]).append
      e.children)

/-- Where a link leads. -/
def linkTarget (e : Element Node) : String :=
  ((e.string? "to").or (e.string? "href")).getD "#"

def link (e : Element Node) : Node :=
  let host := copyProps (hostFrom e "a" "") e ["target", "rel", "title"]
  .element ((host.withProp "href" (.string (linkTarget e))).append e.children)

def navLink (e : Element Node) : Node :=
  let target := linkTarget e
  let pathname := ((e.prop? "location").bind fun location => location.member? "pathname").bind
    Json.string?
  let classes := if pathname = some target then "nav-link active" else "nav-link"
  let host := copyProps (hostFrom e "a" classes) e ["target", "title"]
  .element ((host.withProp "href" (.string target)).append e.children)

end Render

/-- Render an element by a built-in renderer. -/
def Renderer.render (renderer : Renderer) (ctx : RenderContext) (e : Element Node) : Node :=
  match renderer with
  | .component => Render.component e
  | .action => Render.action e
  | .card => Render.card e
  | .table => Render.table e
  | .icons => Render.icons e ctx
  | .errorView => Render.errorView e
  | .chart => Render.chart e ctx
  | .container => Render.container e ctx
  | .flexContainer => Render.flexContainer e
  | .gridContainer => Render.gridContainer e ctx
  | .controller => Render.controller e
  | .form => Render.form e
  | .field => Render.field e
  | .selectField => Render.selectField e
  | .textareaField => Render.textareaField e
  | .checkboxField => Render.checkboxField e
  | .image => Render.image e
  | .svg => Render.svg e ctx
  | .video => Render.video e
  | .link => Render.link e
  | .navLink => Render.navLink e

end ViewSchema
