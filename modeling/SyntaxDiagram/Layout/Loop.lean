import SyntaxDiagram.Layout.Basic

/-!
# Loops and frames

* `Layout.loopSize`, `Layout.loopPieces`: an item with a way back under it, through a separator.
* `Layout.frameSize`, `Layout.framePieces`: an item in a dashed box, perhaps with a caption on it.
-/

namespace SyntaxDiagram.Layout

variable {α β : Type} [Scalar α]

/-- The size of a loop. -/
def loopSize (o : Options α) (item separator : Metrics α) : Metrics α where
  width := max item.width separator.width + 2 * o.arcRadius
  height := item.height
  up := item.up
  down := max (2 * o.arcRadius)
    (item.down + o.verticalSeparation + separator.up + separator.height + separator.down)
  needsSpace := true

/-- How far the entry of the separator lies below that of the item. -/
def loopDistance (o : Options α) (item separator : Metrics α) : α :=
  max (2 * o.arcRadius) (item.height + item.down + o.verticalSeparation + separator.up)

/-- A loop in a slot. -/
def loopPieces (o : Options α) (item separator : Sized α β) (x y slot : α) :
    List (Piece α (Site α β)) :=
  let r := o.arcRadius
  let im := item.metrics
  let sm := separator.metrics
  let m := loopSize o im sm
  let left := x + (gaps o m slot).left
  let inner := m.width - 2 * r
  let distance := loopDistance o im sm
  let descent := (((start (left + r) y).arc r .north .west).down (distance - 2 * r)).arc r
    .west .south
  let return_ := (((start (left + m.width - r) (y + distance + sm.height)).arc r .south .east).up
    (distance - 2 * r + sm.height - im.height)).arc r .east .north
  sides o m x y slot ++
    [.track ((start left y).right r),
     item.piece (left + r) y inner,
     .track ((start (left + m.width - r) (y + m.height)).right r),
     .track descent,
     separator.piece (left + r) (y + distance) inner,
     .track return_]

/-- How far a frame reaches above the entry line. -/
def frameUp (o : Options α) (item : Metrics α) : α :=
  max (item.up + o.verticalSeparation) o.arcRadius

/-- The size of a frame. -/
def frameSize (o : Options α) (item : Metrics α) (label : Option (Metrics α)) : Metrics α where
  width := max (max item.spacedWidth (label.elim 0 (·.width))) (2 * o.arcRadius)
  height := item.height
  up := label.elim (frameUp o item) fun l => frameUp o item + (l.up + l.height + l.down)
  down := max (item.down + o.verticalSeparation) o.arcRadius
  needsSpace := true

/-- A frame in a slot. -/
def framePieces (o : Options α) (item : Sized α β) (label : Option (Sized α β)) (x y slot : α) :
    List (Piece α (Site α β)) :=
  let r := o.arcRadius
  let m := frameSize o item.metrics (label.map (·.metrics))
  let left := x + (gaps o m slot).left
  let up := frameUp o item.metrics
  let frame : Drawing α := .text "rect"
    ⟨[("x", .number left), ("y", .number (y - up)), ("width", .number m.width),
      ("height", .number (up + m.height + m.down)), ("rx", .number r), ("ry", .number r),
      ("class", .text "group-box")]⟩ ""
  let caption := match label with
    | none => []
    | some l => [l.piece left (y - up - l.metrics.down - l.metrics.height) l.metrics.width]
  sides o m x y slot ++ item.piece left y m.width :: .shape frame :: caption

end SyntaxDiagram.Layout
