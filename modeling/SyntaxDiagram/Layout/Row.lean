import SyntaxDiagram.Layout.Basic

/-!
# Rows and columns

* `Layout.rowSize`, `Layout.rowPieces`: items one after another on a line. An item that needs space
  has a connector of 10 units on both sides, in a sequence only towards another item.
* `Layout.stackSize`, `Layout.stackPieces`: lines below one another, each leading back to the left.
* `Layout.columnSize`, `Layout.columnPieces`: items below one another, joined by short drops.
-/

namespace SyntaxDiagram.Layout

variable {α β : Type} [Scalar α]

/-! ## Rows -/

/-- The size of a row with one more item. -/
def extendRow (m : Metrics α) (item : Metrics α) : Metrics α :=
  let height := m.height + item.height
  { m with
    width := m.width + item.spacedWidth
    height
    up := max m.up (item.up - height)
    down := max (m.down - height) item.down }

/-- The size of a row in which connectors stand at both ends as well. -/
def rowSize (items : List (Metrics α)) : Metrics α := items.foldl extendRow Metrics.zero

/-- The size of a row without connectors at its ends. -/
def sequenceSize (items : List (Metrics α)) : Metrics α :=
  let m := rowSize items
  let trim (m : Metrics α) (edge : Option (Metrics α)) : Metrics α :=
    if edge.any (·.needsSpace) then { m with width := m.width - 10 } else m
  { trim (trim m items.head?) items.getLast? with needsSpace := true }

/-- A connector, if there is one. -/
def connector (present : Bool) (x y : α) : List (Piece α (Site α β)) :=
  if present then [.track ((start x y).h 10)] else []

/-- The end of a connector, if there is one. -/
def pastConnector (present : Bool) (x : α) : α := if present then x + 10 else x

/-- The items of a row from a point on. With `edges` there are connectors at both ends of the row;
`inside` says that an item came before. -/
def rowPieces (edges inside : Bool) : List (Sized α β) → (x y : α) → List (Piece α (Site α β))
  | [], _, _ => []
  | s :: rest, x, y =>
    let before := s.metrics.needsSpace && (edges || inside)
    let after := s.metrics.needsSpace && (edges || !rest.isEmpty)
    let entry := pastConnector before x
    let exitX := entry + s.metrics.width
    let exitY := y + s.metrics.height
    connector before x y ++ s.piece entry y s.metrics.width :: connector after exitX exitY ++
      rowPieces edges true rest (pastConnector after exitX) exitY

/-- The point behind the items of a row. -/
def rowEnd (edges inside : Bool) : List (Metrics α) → (x y : α) → α × α
  | [], x, y => (x, y)
  | m :: rest, x, y =>
    let before := m.needsSpace && (edges || inside)
    let after := m.needsSpace && (edges || !rest.isEmpty)
    rowEnd edges true rest (pastConnector after (pastConnector before x + m.width)) (y + m.height)

/-- A row of its own in a slot. -/
def sequencePieces (o : Options α) (items : List (Sized α β)) (x y slot : α) :
    List (Piece α (Site α β)) :=
  let m := sequenceSize (items.map (·.metrics))
  sides o m x y slot ++ rowPieces false false items (x + (gaps o m slot).left) y

/-! ## Stacks -/

/-- The room that a line of a stack keeps to the turn of the track. -/
def turnRoom (o : Options α) (extent : α) : α :=
  max (2 * o.arcRadius) (extent + o.verticalSeparation)

/-- The height of the lines of a stack, added up from the top. -/
def stackHeight (o : Options α) (height : α) (inside : Bool) : List (Metrics α) → α
  | [] => height
  | m :: rest =>
    let height := height + m.height
    let height := if inside then height + turnRoom o m.up else height
    let height := if rest.isEmpty then height else height + turnRoom o m.down
    stackHeight o height true rest

/-- The size of a stack. -/
def stackSize (o : Options α) (first : Metrics α) (rest : List (Metrics α)) : Metrics α :=
  let widest := (first :: rest).foldl (fun w m => max w m.spacedWidth) 0
  { width := if rest.isEmpty then widest else widest + 2 * o.arcRadius
    height := stackHeight o 0 false (first :: rest)
    up := first.up
    down := (rest.getLast?.getD first).down
    needsSpace := true }

/-- The track from the end of a line back to the left and into the next line. -/
def stackTurn (o : Options α) (inner down up x y : α) : Path α :=
  let r := o.arcRadius
  let vs := o.verticalSeparation
  let right := (((start x y).arc r .north .east).down (down + vs - 2 * r)).arc r .east .south
  (((right.left inner).arc r .north .west).down (up + vs - 2 * r)).arc r .west .south

/-- The lines of a stack, each at `x` and as wide as `inner`. -/
def stackLines (o : Options α) (inner x : α) :
    Sized α β → List (Sized α β) → (y : α) → List (Piece α (Site α β))
  | s, [], y => [s.piece x y inner]
  | s, next :: rest, y =>
    let exitY := y + s.metrics.height
    let r := o.arcRadius
    let vs := o.verticalSeparation
    let drop := max (s.metrics.down + vs) (2 * r) + max (next.metrics.up + vs) (2 * r)
    s.piece x y inner ::
      .track (stackTurn o inner s.metrics.down next.metrics.up (x + inner) exitY) ::
      stackLines o inner x next rest (exitY + drop)

/-- The exit line of the last line of a stack. -/
def stackExit (o : Options α) : Metrics α → List (Metrics α) → (y : α) → α
  | m, [], y => y + m.height
  | m, next :: rest, y =>
    let r := o.arcRadius
    let vs := o.verticalSeparation
    let drop := max (m.down + vs) (2 * r) + max (next.up + vs) (2 * r)
    stackExit o next rest (y + m.height + drop)

/-- A stack in a slot. -/
def stackPieces (o : Options α) (first : Sized α β) (rest : List (Sized α β)) (x y slot : α) :
    List (Piece α (Site α β)) :=
  let r := o.arcRadius
  let m := stackSize o first.metrics (rest.map (·.metrics))
  let g := gaps o m slot
  let left := x + g.left
  let exitY := stackExit o first.metrics (rest.map (·.metrics)) y
  let lead : Piece α (Site α β) := .track ((start x y).h g.left)
  if rest.isEmpty then
    let inner := m.width - 0
    lead :: stackLines o inner left first rest y ++
      [.track ((start (left + inner) exitY).h g.right)]
  else
    let inner := m.width - 2 * r
    lead :: .track ((start left y).h r) :: stackLines o inner (left + r) first rest y ++
      [.track ((start (left + r + inner) exitY).h r),
       .track ((start (left + r + inner + r) exitY).h g.right)]

/-! ## Columns -/

/-- The height from the entry line of each item to that of the next. -/
def columnDrops (o : Options α) : Metrics α → List (Metrics α) → List α
  | _, [] => []
  | m, next :: rest =>
    (m.height + m.down + next.up + 2 * o.verticalSeparation) :: columnDrops o next rest

/-- The size of a column. -/
def columnSize (o : Options α) (first : Metrics α) (rest : List (Metrics α)) : Metrics α :=
  let widest := Scalar.largest first.spacedWidth (rest.map (·.spacedWidth))
  { width := if rest.isEmpty then widest else widest + 2 * o.arcRadius
    height := Scalar.sum (columnDrops o first rest)
    up := first.up
    down := (rest.getLast?.getD first).down
    needsSpace := true }

/-- The items of a column, all at `x`, with drops `middle` to the right of it. -/
def columnItems (o : Options α) (middle x : α) :
    Sized α β → List (Sized α β) → (y : α) → List (Piece α (Site α β))
  | s, [], y => [s.piece x y s.metrics.width]
  | s, next :: rest, y =>
    let bottom := y + s.metrics.height + s.metrics.down
    let twice := 2 * o.verticalSeparation
    s.piece x y s.metrics.width :: .track ((start (x + middle) bottom).v twice) ::
      columnItems o middle x next rest (bottom + (next.metrics.up + twice))

/-- The line on which the track leaves a column. The height of the last item counts twice. -/
def columnExit (o : Options α) : Metrics α → List (Metrics α) → (y : α) → α
  | m, [], y => y + m.height + m.height
  | m, next :: rest, y =>
    columnExit o next rest (y + m.height + m.down + (next.up + 2 * o.verticalSeparation))

/-- A column in a slot. The items stand at the left end of the slot, and the drops in the middle of
the narrowest of them. -/
def columnPieces (o : Options α) (first : Sized α β) (rest : List (Sized α β)) (x y slot : α) :
    List (Piece α (Site α β)) :=
  let sizes := rest.map (·.metrics)
  let m := columnSize o first.metrics sizes
  let g := gaps o m slot
  let narrowest := (first.metrics :: sizes).foldl (fun w m => min w m.width) 1000
  let last := sizes.getLast?.getD first.metrics
  let exitX := x + last.width
  let exitY := columnExit o first.metrics sizes y
  let items := columnItems o (narrowest / 2) x first rest y
  .track ((start x y).h g.left) :: items ++
    if rest.isEmpty then [.track ((start exitX exitY).h g.right)]
    else
      [.track ((start exitX exitY).h (m.width - last.width)),
       .track ((start (exitX + o.arcRadius) exitY).h g.right)]

end SyntaxDiagram.Layout
