import SyntaxDiagram.Layout.Basic

/-!
# Branches

A straight branch with others above and below it.

* `Layout.choiceSize`, `Layout.choicePieces`: one branch is taken.
* `Layout.multipleSize`, `Layout.multiplePieces`: several branches are taken, which a badge says.

Branches are listed from top to bottom. Sizes add up from the outermost branch to the straight one
above, and from the straight one outwards below; places are found from the straight branch outwards
on both sides.
-/

namespace SyntaxDiagram

/-- Whether a multiple choice takes some of its branches or all. -/
inductive ChoiceKind where
  | any
  | all
  deriving Repr, DecidableEq

namespace Layout

variable {α β : Type} [Scalar α]

/-- The straight branch of a choice and the branches on both sides of it. -/
structure Branches (β : Type) where
  above : List β
  straight : β
  below : List β

namespace Branches

/-- All branches from top to bottom. -/
def toList (b : Branches β) : List β := b.above ++ b.straight :: b.below

/-- The number of the straight branch. -/
def normal (b : Branches β) : Nat := b.above.length

/-- The branches of a list, the one with the given number being straight. -/
def ofList? (normal : Nat) (items : List β) : Option (Branches β) :=
  match items.drop normal with
  | [] => none
  | straight :: below => some ⟨items.take normal, straight, below⟩

/-- The same branches with other items. -/
def map {γ : Type} (f : β → γ) (b : Branches β) : Branches γ :=
  ⟨b.above.map f, f b.straight, b.below.map f⟩

theorem toList_of_ofList? {normal : Nat} {items : List β} {b : Branches β}
    (h : ofList? normal items = some b) : b.toList = items := by
  unfold ofList? at h
  split at h
  · cases h
  · rename_i straight below hd
    cases h
    simp only [toList, ← hd, List.take_append_drop]

end Branches

/-! ## One branch is taken -/

/-- The room that the arcs of a branch need: those next to the straight branch turn twice. -/
def arcRoom (o : Options α) (adjacent : Bool) : α :=
  if adjacent then 2 * o.arcRadius else o.arcRadius

/-- The extent above, added up over the branches above from the top. -/
def choiceUp (o : Options α) (straight : Metrics α) (up : α) : List (Metrics α) → α
  | [] => up
  | m :: rest =>
    let next := rest.head?.getD straight
    let room := m.height + m.down + o.verticalSeparation + next.up
    choiceUp o straight (up + max (arcRoom o rest.isEmpty) room) rest

/-- The extent below, added up over the branches below; `previous` is the branch over them. -/
def choiceDown (o : Options α) (adjacent : Bool) (previous : Metrics α) (down : α) :
    List (Metrics α) → α
  | [] => down
  | m :: rest =>
    let room := previous.height + previous.down + o.verticalSeparation + m.up
    choiceDown o false m (down + max (arcRoom o adjacent) room) rest

/-- The width of the widest branch. -/
def Branches.widest (b : Branches (Metrics α)) : α :=
  match b.above ++ b.straight :: b.below with
  | [] => b.straight.width
  | first :: rest => Scalar.largest first.width (rest.map (·.width))

/-- The size of a choice. -/
def choiceSize (o : Options α) (b : Branches (Metrics α)) : Metrics α where
  width := b.widest + 4 * o.arcRadius
  height := b.straight.height
  up := choiceUp o b.straight (b.above.head?.getD b.straight).up b.above
  down := choiceDown o true b.straight (b.below.getLast?.getD b.straight).down b.below -
    b.straight.height
  needsSpace := false

/-- The track from the entry of a choice to a branch above. -/
def riseTo (o : Options α) (distance x y : α) : Path α :=
  let r := o.arcRadius
  (((start x y).arc r .south .east).up (distance - 2 * r)).arc r .west .north

/-- The track from the entry of a choice to a branch below. -/
def dropTo (o : Options α) (distance x y : α) : Path α :=
  let r := o.arcRadius
  (((start x y).arc r .north .east).down (distance - 2 * r)).arc r .west .south

/-- The measures that all branches of a choice share. -/
structure ChoiceFrame (α : Type) where
  options : Options α
  /-- the drop of the whole choice -/
  height : α
  /-- the width of each branch -/
  inner : α
  x : α
  y : α

/-- The branches above, the nearest first, at growing distances from the entry line. -/
def choiceAbove (f : ChoiceFrame α) : List (Sized α β) → (distance : α) →
    List (Piece α (Site α β))
  | [], _ => []
  | s :: rest, distance =>
    let r := f.options.arcRadius
    let left := f.x + 2 * r
    let leave := (start (left + f.inner) (f.y - distance + s.metrics.height)).arc r .north .east
    let beyond := match rest with
      | [] => 0
      | next :: _ => next.metrics.down + next.metrics.height
    .track (riseTo f.options distance f.x f.y) :: s.piece left (f.y - distance) f.inner ::
      .track ((leave.down (distance - s.metrics.height + f.height - 2 * r)).arc r .west .south) ::
      choiceAbove f rest
        (distance + max r (s.metrics.up + f.options.verticalSeparation + beyond))

/-- The branches below, the nearest first, at growing distances from the entry line. -/
def choiceBelow (f : ChoiceFrame α) : List (Sized α β) → (distance : α) →
    List (Piece α (Site α β))
  | [], _ => []
  | s :: rest, distance =>
    let r := f.options.arcRadius
    let left := f.x + 2 * r
    let leave := (start (left + f.inner) (f.y + distance + s.metrics.height)).arc r .south .east
    let beyond := match rest with
      | [] => 0
      | next :: _ => next.metrics.up
    .track (dropTo f.options distance f.x f.y) :: s.piece left (f.y + distance) f.inner ::
      .track ((leave.up (distance - 2 * r + s.metrics.height - f.height)).arc r .west .north) ::
      choiceBelow f rest
        (distance + max r (s.metrics.height + s.metrics.down + f.options.verticalSeparation +
          beyond))

/-- The distance of the nearest branch above from the entry line. -/
def choiceRise (o : Options α) (straight : Metrics α) : List (Sized α β) → α
  | [] => 0
  | s :: _ =>
    max (2 * o.arcRadius)
      (straight.up + o.verticalSeparation + s.metrics.down + s.metrics.height)

/-- The distance of the nearest branch below from the entry line of a choice that drops by
`height`. -/
def choiceDrop (o : Options α) (height : α) (straight : Metrics α) : List (Sized α β) → α
  | [] => 0
  | s :: _ => max (2 * o.arcRadius) (height + straight.down + o.verticalSeparation + s.metrics.up)

/-- A choice of size `m` in a slot. -/
def choicePieces (o : Options α) (m : Metrics α) (b : Branches (Sized α β)) (x y slot : α) :
    List (Piece α (Site α β)) :=
  let r := o.arcRadius
  let left := x + (gaps o m slot).left
  let inner := m.width - 4 * r
  let f : ChoiceFrame α := ⟨o, m.height, inner, left, y⟩
  let nearest := b.above.reverse
  sides o m x y slot ++ choiceAbove f nearest (choiceRise o b.straight.metrics nearest) ++
    .track ((start left y).right (2 * r)) :: b.straight.piece (left + 2 * r) y inner ::
    .track ((start (left + 2 * r + inner) (y + m.height)).right (2 * r)) ::
    choiceBelow f b.below (choiceDrop o m.height b.straight.metrics b.below)

/-! ## Several branches are taken -/

/-- The room that the arcs of a branch need next to the badge. -/
def badgeRoom (o : Options α) (adjacent : Bool) : α := o.arcRadius + if adjacent then 10 else 0

/-- The extent above, added up over the branches above from the top. -/
def multipleUp (o : Options α) (straight : Metrics α) (up : α) : List (Metrics α) → α
  | [] => up
  | m :: rest =>
    let next := rest.head?.getD straight
    let room := m.height + m.down + o.verticalSeparation + next.up
    multipleUp o straight (up + max (badgeRoom o rest.isEmpty) room) rest

/-- The extent below, added up over the branches below; `previous` is the branch over them. -/
def multipleDown (o : Options α) (adjacent : Bool) (previous : Metrics α) (down : α) :
    List (Metrics α) → α
  | [] => down
  | m :: rest =>
    let room := m.up + o.verticalSeparation + previous.down + previous.height
    multipleDown o false m (down + max (badgeRoom o adjacent) room) rest

/-- The size of a multiple choice. -/
def multipleSize (o : Options α) (b : Branches (Metrics α)) : Metrics α where
  width := 50 + 2 * o.arcRadius + b.widest
  height := b.straight.height
  up := multipleUp o b.straight (b.above.head?.getD b.straight).up b.above
  down := multipleDown o true b.straight (b.below.getLast?.getD b.straight).down b.below -
    b.straight.height
  needsSpace := true

/-- The branches above, the nearest first, at growing distances from the entry line. -/
def multipleAbove (f : ChoiceFrame α) : List (Sized α β) → (distance : α) →
    List (Piece α (Site α β))
  | [], _ => []
  | s :: rest, distance =>
    let r := f.options.arcRadius
    let left := f.x + 30 + r
    let rise := ((start (f.x + 30) f.y).up (distance - r)).arc r .west .north
    let leave := (start (left + f.inner) (f.y - distance + s.metrics.height)).arc r .north .east
    let distance' := match rest with
      | [] => distance
      | next :: _ =>
        distance + max r (s.metrics.up + f.options.verticalSeparation + next.metrics.down +
          next.metrics.height)
    .track rise :: s.piece left (f.y - distance) f.inner ::
      .track (leave.down (distance - s.metrics.height + f.height - r - 10)) ::
      multipleAbove f rest distance'

/-- The branches below, the nearest first, at growing distances from the entry line. -/
def multipleBelow (f : ChoiceFrame α) : List (Sized α β) → (distance : α) →
    List (Piece α (Site α β))
  | [], _ => []
  | s :: rest, distance =>
    let r := f.options.arcRadius
    let left := f.x + 30 + r
    let drop := ((start (f.x + 30) f.y).down (distance - r)).arc r .west .south
    let leave := (start (left + f.inner) (f.y + distance + s.metrics.height)).arc r .south .east
    let distance' := match rest with
      | [] => distance
      | next :: _ =>
        distance + max r (s.metrics.height + s.metrics.down + f.options.verticalSeparation +
          next.metrics.up)
    .track drop :: s.piece left (f.y + distance) f.inner ::
      .track (leave.up (distance - r + s.metrics.height - f.height)) ::
      multipleBelow f rest distance'

/-- The distance of the nearest branch above from the entry line. -/
def multipleRise (o : Options α) (straight : Metrics α) : List (Sized α β) → α
  | [] => 0
  | s :: _ =>
    max (10 + o.arcRadius)
      (straight.up + o.verticalSeparation + s.metrics.down + s.metrics.height)

/-- The distance of the nearest branch below from the entry line. -/
def multipleDrop (o : Options α) (straight : Metrics α) : List (Sized α β) → α
  | [] => 0
  | s :: _ =>
    max (10 + o.arcRadius)
      (straight.height + straight.down + o.verticalSeparation + s.metrics.up)

namespace ChoiceKind

/-- What the tooltip of the badge says. -/
def tooltip : ChoiceKind → String
  | .any => "take one or more branches, once each, in any order"
  | .all => "take all branches, once each, in any order"

/-- What the badge says. -/
def badge : ChoiceKind → String
  | .any => "1+"
  | .all => "all"

end ChoiceKind

/-- The badge of a multiple choice: what is taken on the left, an arrow on the right. -/
def badgeDrawing (kind : ChoiceKind) (m : Metrics α) (x y : α) : Drawing α :=
  let cls : Attributes (Value α) := ⟨[("class", .text "diagram-text")]⟩
  let arrow : Attributes (Value α) := ⟨[("style", .text "stroke-width: 1.75")]⟩
  .group "g" cls
    [.title (ChoiceKind.tooltip kind),
     .trackWith cls
       ((start (x + 30) (y - 10)).raw " h -26 a 4 4 0 0 0 -4 4 v 12 a 4 4 0 0 0 4 4 h 26 z"),
     .words (x + 15) (y + 4) [("class", .text "diagram-text")] (ChoiceKind.badge kind),
     .trackWith cls
       ((start (x + m.width - 20) (y - 10)).raw
         " h 16 a 4 4 0 0 1 4 4 v 12 a 4 4 0 0 1 -4 4 h -16 z"),
     .trackWith arrow
       ((start (x + m.width - 13) (y - 2)).raw " a 4 4 0 1 0 6 -1 m 2.75 -1 h -4 v 4 m 0 -3 h 2")]

/-- A multiple choice in a slot. -/
def multiplePieces (o : Options α) (kind : ChoiceKind) (b : Branches (Sized α β)) (x y slot : α) :
    List (Piece α (Site α β)) :=
  let r := o.arcRadius
  let sizes := b.map (·.metrics)
  let m := multipleSize o sizes
  let inner := sizes.widest
  let left := x + (gaps o m slot).left
  let f : ChoiceFrame α := ⟨o, m.height, inner, left, y⟩
  let nearest := b.above.reverse
  sides o m x y slot ++ multipleAbove f nearest (multipleRise o b.straight.metrics nearest) ++
    .track ((start (left + 30) y).right r) :: b.straight.piece (left + 30 + r) y inner ::
    .track ((start (left + 30 + r + inner) (y + m.height)).right r) ::
    multipleBelow f b.below (multipleDrop o b.straight.metrics b.below) ++
    [.shape (badgeDrawing kind m left y)]

end Layout
end SyntaxDiagram
