import SyntaxDiagram.Layout.Basic

/-!
# Rails

Items side by side, with tracks that lead over and under them.

* `Layout.sideSize`, `Layout.sidePieces`: one item is taken. A rail above leads to the items, a
  rail below leads away from them.
* `Layout.skipRowSize`, `Layout.skipRowPieces`: any item may be passed by, but not all of them.
-/

namespace SyntaxDiagram.Layout

variable {α β : Type} [Scalar α]

/-! ## One of several side by side -/

/-- At least two items side by side. -/
structure Beside (β : Type) where
  first : β
  middles : List β
  last : β

namespace Beside

/-- All items from left to right. -/
def toList (b : Beside β) : List β := b.first :: (b.middles ++ [b.last])

/-- All items but the last. -/
def front (b : Beside β) : List β := b.first :: b.middles

/-- All items but the first. -/
def back (b : Beside β) : List β := b.middles ++ [b.last]

/-- The same with other items. -/
def map {γ : Type} (f : β → γ) (b : Beside β) : Beside γ := ⟨f b.first, b.middles.map f, f b.last⟩

/-- Two or more items of a list. -/
def ofList? : List β → Option (Beside β)
  | [] | [_] => none
  | first :: second :: rest =>
    some ⟨first, (second :: rest).dropLast, (second :: rest).getLast (List.cons_ne_nil _ _)⟩

theorem toList_of_ofList? {items : List β} {b : Beside β} (h : ofList? items = some b) :
    b.toList = items := by
  match items, h with
  | first :: second :: rest, h =>
    cases h
    simp only [toList, List.dropLast_concat_getLast]

end Beside

/-- The room of an arc behind the last item, if that item drops. -/
def lastArc (o : Options α) (last : Metrics α) : α := if last.height > 0 then o.arcRadius else 0

/-- How far the rail above lies over the entry line. -/
def upperRail (o : Options α) (b : Beside (Metrics α)) : α :=
  let vs := o.verticalSeparation
  let highest := Scalar.largest b.first.up (b.middles.map (·.up))
  max (max (2 * o.arcRadius) vs) (highest + vs)

/-- What the middle items ask of the rail below. -/
def middleDepth (o : Options α) (m : Metrics α) : α :=
  m.height + max (m.down + o.verticalSeparation) (2 * o.arcRadius)

/-- How far the rail below lies under the entry line. -/
def lowerRail (o : Options α) (b : Beside (Metrics α)) : α :=
  let vs := o.verticalSeparation
  let belowMiddles := match b.middles.map (middleDepth o) with
    | [] => Scalar.orLeast vs
    | first :: rest => max vs (Scalar.largest first rest)
  let rail := max belowMiddles (b.last.height + b.last.down + vs)
  if b.first.height < rail then max rail (b.first.height + 2 * o.arcRadius) else rail

/-- The size of items side by side. -/
def sideSize (o : Options α) (b : Beside (Metrics α)) : Metrics α where
  width :=
    let r := o.arcRadius
    let turns := 2 * r * Scalar.ofNat (b.middles.length + 1)
    r + turns + Scalar.sum (b.toList.map (·.spacedWidth)) + lastArc o b.last + r
  height := 0
  up := max (upperRail o b) b.last.up
  down := max (lowerRail o b) (b.first.height + b.first.down)
  needsSpace := false

/-- The track from an item to the rail below or to the exit. -/
def sideExit (o : Options α) (lower : α) (isFirst isLast : Bool) (m : Metrics α) (x y : α) :
    Path α :=
  let r := o.arcRadius
  let p := start x (y + m.height)
  if isLast then
    if m.height == 0 then (start x y).h r else p.arc r .south .east
  else if isFirst && m.height > lower then
    if m.height - lower ≥ 2 * r then
      ((p.arc r .south .east).v (lower - m.height + 2 * r)).arc r .west .north
    else p.l (2 * r) (lower - m.height)
  else ((p.arc r .north .east).v (lower - m.height - 2 * r)).arc r .west .south

/-- The items from a point on, each with its way in and its way out. -/
def sideItems (o : Options α) (upper lower : α) (isFirst : Bool) :
    List (Sized α β) → (x y : α) → List (Piece α (Site α β))
  | [], _, _ => []
  | s :: rest, x, y =>
    let r := o.arcRadius
    let way : Path α :=
      if isFirst then (start x y).h r
      else (((start x (y - upper)).arc r .north .east).v (upper - 2 * r)).arc r .west .south
    let left := if isFirst then x + r else x + 2 * r
    let slot := s.metrics.spacedWidth
    .track way :: s.piece left y slot ::
      .track (sideExit o lower isFirst rest.isEmpty s.metrics (left + slot) y) ::
      sideItems o upper lower false rest (left + slot) y

/-- Items side by side in a slot. -/
def sidePieces (o : Options α) (b : Beside (Sized α β)) (x y slot : α) :
    List (Piece α (Site α β)) :=
  let r := o.arcRadius
  let sizes := b.map (·.metrics)
  let m := sideSize o sizes
  let upper := upperRail o sizes
  let lower := lowerRail o sizes
  let left := x + (gaps o m slot).left
  let middleArcs := Scalar.ofNat sizes.middles.length * 2 * r
  let upperSpan := Scalar.sum (sizes.front.map (·.spacedWidth)) + middleArcs - r
  let lowerSpan :=
    Scalar.sum (sizes.back.map (·.spacedWidth)) + middleArcs + lastArc o sizes.last - r
  let lowerStart := left + r + sizes.first.spacedWidth + 2 * r
  let upperTrack := (((start left y).arc r .south .east).v (2 * r - upper)).arc r .west .north
  let lowerTrack := (((start lowerStart (y + lower)).h lowerSpan).arc r .south .east).v
    (2 * r - lower)
  sides o m x y slot ++
    .track (upperTrack.h upperSpan) :: .track (lowerTrack.arc r .west .north) ::
    sideItems o upper lower true b.toList left y

/-! ## Items that can be passed by -/

/-- The extents of a row of passable items with one more item: the height so far, the extent above
and the extent below. `total` is the height of the whole row. -/
def skipRowExtend (o : Options α) (total : α) (isFirst : Bool) (sofar up down : α)
    (m : Metrics α) : α × α × α :=
  let r := o.arcRadius
  let vs := o.verticalSeparation
  let sofar := sofar + m.height
  (sofar, max (max up (2 * r - sofar)) (m.up + vs - sofar),
    if isFirst then down
    else max (max (total + down) (2 * r - total)) (m.down + vs - total))

/-- The extents above and below of the items behind the first. -/
def skipRowExtents (o : Options α) (total : α) : (sofar up down : α) → List (Metrics α) → α × α
  | _, up, down, [] => (up, down)
  | sofar, up, down, m :: rest =>
    let e := skipRowExtend o total false sofar up down m
    skipRowExtents o total e.1 e.2.1 e.2.2 rest

/-- An item and the connector on one side of it. -/
def passWidth (m : Metrics α) : α := m.width + if m.needsSpace then 10 else 0

/-- The size of a row of passable items. -/
def skipRowSize (o : Options α) (first : Metrics α) (rest : List (Metrics α)) : Metrics α :=
  let r := o.arcRadius
  let total := Scalar.sum ((first :: rest).map (·.height))
  let e := skipRowExtend o total true 0 0 first.down first
  let extents := skipRowExtents o total e.1 e.2.1 e.2.2 rest
  { width := rest.foldl (fun w m => w + max (passWidth m) r + 3 * r)
      (0 + max (passWidth first) r + r)
    height := total
    up := extents.1
    down := extents.2
    needsSpace := false }

/-- The connector on one side of an item. -/
def passSpace (m : Metrics α) : α := if m.needsSpace then 10 else 0

/-- The items behind the first from a point on, the rail above them at `top`. -/
def skipRowItems (o : Options α) (top : α) :
    List (Sized α β) → (x y : α) → List (Piece α (Site α β))
  | [], _, _ => []
  | s :: rest, x, y =>
    let r := o.arcRadius
    let vs := o.verticalSeparation
    let m := s.metrics
    let width := m.width + passSpace m
    let bridge : Path α :=
      ((((start x top).right (3 * r + max width r)).arc r .north .east).down
        (y - top + m.height - 2 * r)).arc r .west .south
    let under : Path α :=
      (((start x y).arc r .north .east).down
        (m.height + max (m.down + vs) (2 * r) - 2 * r)).arc r .west .south
    let back := (((under.right (width - r)).arc r .south .east).up (m.down + vs - 2 * r)).arc r
      .west .north
    (if rest.isEmpty then [] else [.track bridge]) ++
      .track ((start x y).right (2 * r)) :: s.piece (x + 2 * r) y m.width ::
      .track ((start (x + 2 * r + m.width) (y + m.height)).right (passSpace m + r)) ::
      .track back ::
      skipRowItems o top rest (x + (3 * r + max width r)) (y + m.height)

/-- A row of passable items in a slot. -/
def skipRowPieces (o : Options α) (first : Sized α β) (rest : List (Sized α β)) (x y slot : α) :
    List (Piece α (Site α β)) :=
  let r := o.arcRadius
  let m := skipRowSize o first.metrics (rest.map (·.metrics))
  let g := gaps o m slot
  let left := x + g.left
  let top := y - m.up
  let fm := first.metrics
  let space := passSpace fm
  let width := fm.width + space
  let rise := (((start left y).arc r .south .east).up (y - top - 2 * r)).arc r .west .north
  let bridge := (((rise.right (width - r)).arc r .north .east).down
    (y + fm.height - top - 2 * r)).arc r .west .south
  .track ((start x y).right g.left) ::
    .track ((start (x + g.left + m.width) (y + m.height)).right g.right) ::
    .track bridge :: .track ((start left y).right (space + r)) ::
    first.piece (left + space + r) y fm.width ::
    skipRowItems o top rest (left + (width + r)) (y + fm.height)

end SyntaxDiagram.Layout
