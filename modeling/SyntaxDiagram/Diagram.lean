import SyntaxDiagram.Node.Placed
import SyntaxDiagram.Diagram.Style
import SyntaxDiagram.Element.Document

/-!
# Diagrams

A row of nodes between a start and an end marker.

* `Diagram.simple`, `Diagram.fragment`: the missing markers are added.
* `Diagram.draw`: the whole picture with padding around it.
* `Sheet`: a diagram that is drawn once, by the first request that needs the drawing, and answers
  all later requests from that drawing.
-/

namespace SyntaxDiagram

/-- The room around a diagram. A side without a value is like the top, and a top without one is 20
wide. -/
structure Padding (α : Type) where
  top : Option α := none
  right : Option α := none
  bottom : Option α := none
  left : Option α := none
  deriving Repr

/-- A row of nodes with its markers. -/
structure Diagram (α : Type) where
  items : List (Node α)
  options : Options α
  deriving Repr

namespace Diagram

variable {α : Type} [Scalar α]

/-- Puts a marker in front, unless there is one already. -/
def withStart : List (Node α) → List (Node α)
  | items@(.start .. :: _) => items
  | items => .start .simple "" :: items

/-- Puts a marker behind, unless there is one already. -/
def withFinish (items : List (Node α)) : List (Node α) :=
  match items.getLast? with
  | some (.finish _) => items
  | _ => items ++ [.finish .simple]

/-- Puts a marker of fragments in front, in the place of any other marker. -/
def withFragmentStart : List (Node α) → List (Node α)
  | items@(.start .complex _ :: _) => items
  | .start .simple _ :: rest => .start .complex "" :: rest
  | items => .start .complex "" :: items

/-- Puts a marker of fragments behind, in the place of any other marker. -/
def withFragmentFinish (items : List (Node α)) : List (Node α) :=
  match items.getLast? with
  | some (.finish .complex) => items
  | some (.finish .simple) => items.dropLast ++ [.finish .complex]
  | _ => items ++ [.finish .complex]

/-- A diagram with double ticks at both ends, unless the items have markers of their own. -/
def simple (options : Options α) (items : List (Node α)) : Diagram α :=
  ⟨withFinish (withStart items), options⟩

/-- A diagram with single ticks at both ends. -/
def fragment (options : Options α) (items : List (Node α)) : Diagram α :=
  ⟨withFragmentFinish (withFragmentStart items), options⟩

/-- All nodes of a diagram. -/
def walk (d : Diagram α) : List (Node α) := Walk.toList ⟨d.items⟩

/-- The size of a diagram. -/
def metrics (d : Diagram α) : Metrics α :=
  Layout.rowSize ((Node.figures d.options d.items).map (·.metrics))

/-- The nodes of a diagram whose picture has its upper left corner at a point. -/
def pieces (d : Diagram α) (x y : α) (padding : Padding α) : List (Piece α (Placed α)) :=
  let top := padding.top.getD 20
  let left := padding.left.getD top
  let figures := Node.figures d.options d.items
  let up := (Layout.rowSize (figures.map (·.metrics))).up
  (Layout.rowPieces true false figures (x + left) (y + top + up)).map (.map Layout.settle)

/-- The width of the whole picture. -/
def canvasWidth (d : Diagram α) (padding : Padding α) : α :=
  let top := padding.top.getD 20
  d.metrics.width + padding.left.getD top + padding.right.getD top

/-- The height of the whole picture. -/
def canvasHeight (d : Diagram α) (padding : Padding α) : α :=
  let top := padding.top.getD 20
  let m := d.metrics
  m.up + m.height + m.down + top + padding.bottom.getD top

/-- The whole picture. -/
def draw (d : Diagram α) (x y : α) (padding : Padding α) : Drawing α :=
  let shift : Attributes (Value α) :=
    if d.options.strokeOddPixelLength then ⟨[("transform", .text "translate(.5 .5)")]⟩ else ∅
  let width := d.canvasWidth padding
  let height := d.canvasHeight padding
  .group "svg"
    ⟨[("class", .text d.options.diagramClass), ("width", .number width),
      ("height", .number height), ("viewBox", .numbers [0, 0, width, height])]⟩
    [.group "g" shift (Placed.drawPieces (d.pieces x y padding))]

end Diagram

/-- A diagram and the drawing of it, once there is one. -/
structure Sheet where
  diagram : Diagram Float
  drawn : Option Element := none

namespace Sheet

/-- The element tree of a diagram. -/
def picture (d : Diagram Float) (x y : Float) (padding : Padding Float) : Element :=
  (d.draw x y padding).toElement Decimal.svg.write

/-- The drawing, made with the usual padding if there is none yet. -/
def drawing (s : Sheet) : Element := s.drawn.getD (picture s.diagram 0 0 {})

/-- A drawing with its stylesheet and namespaces, fit to stand in a file of its own. -/
def standalone (drawing : Element) (css : Option String) : String :=
  let css := match css with
    | none | some "" => defaultStyle
    | some css => css
  ((drawing.appendChild (.text "style" ∅ css)).mapAttributes fun a =>
    (a.set "xmlns" svgNamespace).set "xmlns:xlink" xlinkNamespace).render

/-- What a sheet can be asked. -/
inductive Call where
  /-- draws at a point with padding, unless there is a drawing already -/
  | format (x y width : Float) (padding : Padding Float)
  | markup
  | element
  | standalone (css : Option String)
  | dom (document : Option Document)

/-- What a sheet answers. -/
inductive Answer where
  | element (e : Element)
  | text (markup : String)
  | dom (root : Except Error Nat) (nodes : Dom)
  | refused (error : Error)

/-- The answer to a call, and the sheet behind it. Room for a drawing is not up to the caller: a
width other than zero is refused before anything is drawn. -/
def call (s : Sheet) : Call → Answer × Sheet
  | .format x y width padding =>
    if width == 0 then
      let e := s.drawn.getD (picture s.diagram x y padding)
      (.element e, { s with drawn := some e })
    else (.refused (.fixedWidth width), s)
  | .markup => (.text s.drawing.render, { s with drawn := some s.drawing })
  | .element => (.element s.drawing, { s with drawn := some s.drawing })
  | .standalone css => (.text (standalone s.drawing css), { s with drawn := some s.drawing })
  | .dom document =>
    let (root, nodes) := match (s.drawing.toDom document).run {} with
      | .ok root nodes => (.ok root, nodes)
      | .error error nodes => (.error error, nodes)
    (.dom root nodes, { s with drawn := some s.drawing })

end Sheet
end SyntaxDiagram
