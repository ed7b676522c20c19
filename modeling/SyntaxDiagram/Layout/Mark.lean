import SyntaxDiagram.Layout.Basic

/-!
# Marks

Nodes without items: boxed text, remarks, bare lines and the markers at the ends of a diagram.
-/

namespace SyntaxDiagram

/-- The glyph at an end of a diagram: a double tick, or a single one for fragments. -/
inductive MarkerStyle where
  | simple
  | complex
  deriving Repr, DecidableEq

namespace Layout

variable {α γ : Type} [Scalar α]

/-- The size of boxed text. -/
def boxSize (o : Options α) (text : String) : Metrics α where
  width := textLength text * o.defaultCharWidth + 20
  height := 0
  up := 11
  down := 11
  needsSpace := true

/-- The attributes of boxed text: those it was given, then its class. -/
def boxAttributes (o : Options α) (cls : String) (given : Attributes String) :
    Attributes (Value α) :=
  debugMarks o [11, 11] cls ((given.map .text).set "class" (.text cls))

/-- Boxed text. A `href` makes a link of the text, a `title` becomes a tooltip. -/
def boxPieces (o : Options α) (rounded : Bool) (text : String) (given : Attributes String)
    (x y slot : α) : List (Piece α γ) :=
  let m := boxSize o text
  let left := x + (gaps o m slot).left
  let corners : List (String × Value α) :=
    if rounded then [("rx", .text "10"), ("ry", .text "10")] else []
  let frame : Drawing α := .text "rect"
    ⟨[("x", .number left), ("y", .number (y - 11)), ("width", .number m.width),
      ("height", .number (m.up + m.down))] ++ corners⟩ ""
  let content := Drawing.words (left + m.width / 2) (y + 4) [] text
  sides o m x y slot ++
    .shape frame :: .shape (Drawing.linkTo (given.get? "href") content) ::
      (Drawing.titles (given.get? "title")).map .shape

/-- The size of a remark. -/
def remarkSize (o : Options α) (text : String) : Metrics α where
  width := textLength text * o.defaultCharWidth + 10
  height := 0
  up := 8
  down := 8
  needsSpace := true

/-- A remark: text on the line, without a box. -/
def remarkPieces (o : Options α) (text : String) (href title : Option String) (x y slot : α) :
    List (Piece α γ) :=
  let m := remarkSize o text
  let left := x + (gaps o m slot).left
  let content := Drawing.words (left + m.width / 2) (y + 5) [("class", .text "comment")] text
  sides o m x y slot ++
    .shape (Drawing.linkTo href content) :: (Drawing.titles title).map .shape

/-- A bare line through the slot. -/
def skipPieces (x y slot : α) : List (Piece α γ) := [.track ((start x y).right slot)]

/-- The size of the marker at the start. -/
def startSize (o : Options α) (label : String) : Metrics α where
  width := max (textLength label * o.defaultCharWidth + 10) 20
  height := 0
  up := 10
  down := 10
  needsSpace := false

/-- The ticks of the marker at the start. -/
def startTicks (style : MarkerStyle) (p : Path α) : Path α :=
  match style with
  | .simple => (((p.down 20).m 10 (-20)).down 20).m (-10) (-10)
  | .complex => (p.down 20).m 0 (-10)

/-- The marker at the start, its label above the line. -/
def startPieces (o : Options α) (style : MarkerStyle) (label : String) (x y : α) :
    List (Piece α γ) :=
  .track ((startTicks style (start x (y - 10))).right (startSize o label).width) ::
    if label.isEmpty then []
    else [.shape (Drawing.words x (y - 15) [("style", .text "text-anchor:start")] label)]

/-- The size of the marker at the end. -/
def endSize : Metrics α where
  width := 20
  height := 0
  up := 10
  down := 10
  needsSpace := false

/-- The marker at the end. -/
def endPath (style : MarkerStyle) (x y : α) : Path α :=
  match style with
  | .simple => (((((start x y).h 20).m (-10) (-10)).v 20).m 10 (-20)).v 20
  | .complex => (((start x y).h 20).m 0 (-10)).v 20

/-- The marker at the end as it is drawn, without a group around it. -/
def endDrawing (o : Options α) (style : MarkerStyle) (x y : α) : Drawing α :=
  .text "path" ((debugMarks o [10, 10] "end" ∅).set "d" (.path " " (endPath style x y))) ""

/-- A bare block: nothing but its place. -/
def blockDrawing (x y slot : α) : Drawing α :=
  .group "g" ⟨[("x", .number x), ("y", .number y), ("width", .number slot)]⟩ []

end Layout
end SyntaxDiagram
