import SyntaxDiagram.Layout.Basic

/-!
# Crossings

Two items that may follow one another in turn. Each has a track of its own, above and below the
line, and two slanted bars lead from one track to the other.
-/

namespace SyntaxDiagram.Layout

variable {α β : Type} [Scalar α]

/-- The measures of the two bars: those of a bend, and those of a whole bar. -/
structure Crossing (α : Type) where
  arcX : α
  arcY : α
  crossX : α
  crossY : α

/-- The bars that fit arcs and separation. -/
def crossing (o : Options α) : Crossing α :=
  let r := o.arcRadius
  let arcX := 2 * r / Scalar.sqrtTwo
  let arcY := 2 * r * (1 - 1 / Scalar.sqrtTwo)
  let crossY := max r o.verticalSeparation
  ⟨arcX, arcY, (crossY - arcY) + arcX, crossY⟩

/-- The size of two items in turn. -/
def crossingSize (o : Options α) (first second : Metrics α) : Metrics α :=
  let r := o.arcRadius
  let vs := o.verticalSeparation
  let c := crossing o
  let half := c.crossY / 2
  let firstOut := max (2 * r + half) (vs + first.down + half)
  let secondIn := max (2 * r + half) (vs + second.up + half)
  { width := 4 * r + max (first.spacedWidth + c.crossX) second.spacedWidth
    height := 0
    up := firstOut + first.height + first.up
    down := secondIn + second.height + second.down
    needsSpace := false }

/-- Two items in turn in a slot. -/
def crossingPieces (o : Options α) (first second : Sized α β) (x y slot : α) :
    List (Piece α (Site α β)) :=
  let r := o.arcRadius
  let fm := first.metrics
  let sm := second.metrics
  let m := crossingSize o fm sm
  let c := crossing o
  let g := gaps o m slot
  let left := x + g.left
  let inner := m.width - 4 * r
  let firstIn := m.up - fm.up
  let firstOut := m.up - fm.up - fm.height
  let secondIn := m.down - sm.down - sm.height
  let secondOut := m.down - sm.down
  let farRight := left + m.width - 2 * r
  let bar := (m.width - 4 * r - c.crossX) / 2
  let intoFirst := (((start left y).arc r .south .east).up (firstIn - 2 * r)).arc r .west .north
  let outOfFirst := (((start farRight (y - firstOut)).arc r .north .east).down
    (firstOut - 2 * r)).arc r .west .south
  let intoSecond := (((start left y).arc r .north .east).down (secondIn - 2 * r)).arc r .west .south
  let outOfSecond := (((start farRight (y + secondOut)).arc r .south .east).up
    (secondOut - 2 * r)).arc r .west .north
  let falling := ((start (left + r) (y - r - c.crossY / 2)).arc r .west .south).right bar
  let falling := ((falling.eighth r .north .clockwise).l (c.crossX - c.arcX)
    (c.crossY - c.arcY)).eighth r .southWest .counterClockwise
  let rising := ((start (left + r) (y + r + c.crossY / 2)).arc r .west .north).right bar
  let rising := ((rising.eighth r .south .counterClockwise).l (c.crossX - c.arcX)
    (c.arcY - c.crossY)).eighth r .northWest .clockwise
  [.track ((start x y).right g.left),
   .track ((start (left + m.width) y).right g.right),
   .track intoFirst,
   first.piece (left + 2 * r) (y - firstIn) inner,
   .track outOfFirst,
   .track intoSecond,
   second.piece (left + 2 * r) (y + secondIn) inner,
   .track outOfSecond,
   .track ((falling.right bar).arc r .north .east),
   .track ((rising.right bar).arc r .south .east)]

end SyntaxDiagram.Layout
