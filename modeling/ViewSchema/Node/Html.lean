import ViewSchema.Markup.Entity
import ViewSchema.Node.Expand

/-!
# HTML

Expanded trees written as HTML, on one line or indented.

Main definitions:

- `Html.attributes` writes the props of an element, the class list first.
- `Html.compact` writes a tree on one line, `Html.lines` one tag or text a line.
-/

namespace ViewSchema

namespace Html

/-- Elements that have no content. -/
def voidElements : List String :=
  ["area", "base", "br", "col", "embed", "hr", "img", "input", "link", "meta", "param",
    "source", "track", "wbr"]

/-- Style properties whose numbers have no unit. -/
def unitless : List String :=
  ["opacity", "zIndex", "flex", "flexGrow", "flexShrink", "fontWeight", "lineHeight",
    "order", "zoom", "columnCount", "gridRow", "gridColumn", "gridRowStart",
    "gridColumnStart", "tabSize", "orphans"]

/-- Custom style properties are kept as they are written. -/
def isCustomProperty (name : String) : Bool := "--".toList.isPrefixOf name.toList

/-- The style property of a name in camel case. -/
def cssProperty (name : String) : String :=
  if isCustomProperty name then name
  else
    String.ofList (name.toList.flatMap fun c => if c.isUpper then ['-', c.toLower] else [c])

/-- The value of a style property; other values than texts and numbers are
left out. -/
def cssValue? (name : String) : Json → Option String
  | .string s => some s
  | .number n =>
    if n.isZero then some "0"
    else if unitless.contains name || isCustomProperty name then some n.text
    else some (n.text ++ "px")
  | _ => none

/-- Style properties as inline style text. -/
def styleText (style : List (String × Json)) : String :=
  String.intercalate "; " (style.filterMap fun field =>
    (cssValue? field.1 field.2).map fun value => cssProperty field.1 ++ ": " ++ value)

/-- An attribute with a quoted value. -/
def quotedAttribute (name value : String) : String :=
  " " ++ name ++ "=\"" ++ Entity.escapeAttribute value ++ "\""

/-- Props that are written elsewhere or not at all. -/
def hiddenProps : List String := ["classes", "className", "key", "children"]

/-- The attribute of a prop. -/
def attributeOf (name : String) (value : Json) : String :=
  if hiddenProps.contains name then ""
  else if name = "style" then
    let css := ((value.object?).map styleText).getD ""
    if css.isEmpty then "" else quotedAttribute "style" css
  else
    match value with
    | .bool true => " " ++ name
    | .string s => quotedAttribute name s
    | .number n => " " ++ name ++ "=\"" ++ n.text ++ "\""
    | _ => ""

/-- All classes of an element. -/
def classesOf (e : Element Node) : ClassList :=
  e.classes.extend (.ofJson? (e.prop? "className"))

/-- The attributes of an element, the class list first. -/
def attributes (e : Element Node) : String :=
  let classes := classesOf e
  (if classes.isEmpty then "" else quotedAttribute "class" classes.text)
    ++ String.join (e.props.map fun field => attributeOf field.1 field.2)

/-- The opening tag of an element, up to its closing bracket. -/
def opening (e : Element Node) : String := "<" ++ e.tag ++ attributes e

def closing (e : Element Node) : String := "</" ++ e.tag ++ ">"

def isVoid (e : Element Node) : Bool := voidElements.contains e.tag

mutual

/-- An expanded tree on one line. -/
def compact : Node → String
  | .nothing => ""
  | .text _ value => Entity.escapeText value
  | .fragment _ children => compactAll children
  | .element e =>
    if isVoid e then opening e ++ " />"
    else opening e ++ ">" ++ compactAll e.children ++ closing e

def compactAll : List Node → String
  | [] => ""
  | c :: cs => compact c ++ compactAll cs

end

/-- A line at a depth. -/
def indented (depth : Nat) (content : String) : String :=
  String.ofList (List.replicate (2 * depth) ' ') ++ content

mutual

/-- An expanded tree with one tag or text a line. An element whose children are
all nothing stays on one line. -/
def lines (depth : Nat) : Node → List String
  | .nothing => []
  | .text _ value => if value.isEmpty then [] else [indented depth (Entity.escapeText value)]
  | .fragment _ children => linesOfAll depth children
  | .element e =>
    if isVoid e then [indented depth (opening e ++ " />")]
    else if e.children.all Node.isNothing then
      [indented depth (opening e ++ ">" ++ closing e)]
    else
      indented depth (opening e ++ ">") :: linesOfAll (depth + 1) e.children
        ++ [indented depth (closing e)]

def linesOfAll (depth : Nat) : List Node → List String
  | [] => []
  | c :: cs => lines depth c ++ linesOfAll depth cs

end

/-- Expand a tree and write it on one line. -/
def render (ctx : RenderContext) (node : Node) : String := compact (node.expand ctx)

/-- Expand a tree and write it indented. -/
def renderPretty (ctx : RenderContext) (node : Node) : String :=
  String.intercalate "\n" (lines 0 (node.expand ctx))

end Html

end ViewSchema
