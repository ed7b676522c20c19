import SyntaxDiagram.Drawing

/-!
# Sizes and places

What all layouts share.

* `Options`: the measures of a drawing.
* `Metrics`: the size of a node around its entry point, and `Box`, that size at a place.
* `Gaps`: the spare room of a slot on both sides of a node.
* `Sized`: something with a size. A container is laid out from sized items alone, whatever they
  are, and answers with a list of `Piece`s.
* `Site`: a sized item that was given a place.
-/

namespace SyntaxDiagram

/-- Where a node stands in a slot that is wider than the node. -/
inductive Alignment where
  | left
  | center
  | right
  deriving Repr, DecidableEq

/-- The measures of a drawing, the same for all its nodes. -/
structure Options (α : Type) where
  /-- whether sizes are recorded in the markup -/
  debug : Bool
  /-- the least vertical room between stacked content -/
  verticalSeparation : α
  arcRadius : α
  /-- the class of the root element -/
  diagramClass : String
  /-- whether the drawing is moved by half a pixel, for strokes of odd width -/
  strokeOddPixelLength : Bool
  internalAlignment : Alignment
  defaultCharWidth : α
  commentCharWidth : α
  deriving Repr

/-- The measures that hold unless others are asked for. -/
def Options.default : Options Float where
  debug := false
  verticalSeparation := 8
  arcRadius := 10
  diagramClass := "railroad-diagram"
  strokeOddPixelLength := true
  internalAlignment := .center
  defaultCharWidth := 8.5
  commentCharWidth := 7

/-- The size of a node, seen from its entry point. -/
structure Metrics (α : Type) where
  width : α
  /-- how far the exit line lies below the entry line -/
  height : α
  /-- the extent above the entry line -/
  up : α
  /-- the extent below the exit line -/
  down : α
  /-- whether neighbours in a row need a connector of 10 units on each side -/
  needsSpace : Bool
  deriving Repr

/-- An upright rectangle. -/
structure Box (α : Type) where
  left : α
  top : α
  right : α
  bottom : α
  deriving Repr

/-- The room on both sides of a node. -/
structure Gaps (α : Type) where
  left : α
  right : α
  deriving Repr

/-- Something with a size. -/
structure Sized (α β : Type) where
  metrics : Metrics α
  item : β

/-- A sized item with its entry point and the width of its slot. -/
structure Site (α β : Type) extends Sized α β where
  x : α
  y : α
  slot : α

/-- A part of the picture of a container. -/
inductive Piece (α γ : Type) where
  /-- a line of the container -/
  | track (path : Path α)
  /-- an item of the container -/
  | child (content : γ)
  /-- any other shape -/
  | shape (drawing : Drawing α)

/-- The same part with another content. -/
def Piece.map {α γ δ : Type} (f : γ → δ) : Piece α γ → Piece α δ
  | track path => track path
  | child content => child (f content)
  | shape drawing => shape drawing

variable {α β γ : Type} [Scalar α]

/-- The size of nothing. -/
def Metrics.zero : Metrics α := ⟨0, 0, 0, 0, false⟩

/-- The width with room for both connectors. -/
def Metrics.spacedWidth (m : Metrics α) : α := m.width + if m.needsSpace then 20 else 0

/-- The room that a size takes up at an entry point. -/
def Metrics.box (m : Metrics α) (x y : α) : Box α :=
  ⟨x, y - m.up, x + m.width, y + m.height + m.down⟩

/-- The room that an item takes up at its place. -/
def Site.box (s : Site α β) : Box α := s.metrics.box s.x s.y

/-- Gives an item a place. -/
def Sized.at (s : Sized α β) (x y slot : α) : Site α β := { s with x, y, slot }

/-- The piece that stands for a placed item. -/
def Sized.piece (s : Sized α β) (x y slot : α) : Piece α (Site α β) := .child (s.at x y slot)

/-- Shares out the room that a slot has left. A slot that is too narrow gives negative gaps. -/
def Alignment.gaps (a : Alignment) (outer inner : α) : Gaps α :=
  let spare := outer - inner
  match a with
  | left => ⟨0, spare⟩
  | center => ⟨spare / 2, spare / 2⟩
  | right => ⟨spare, 0⟩

namespace Layout

/-- The gaps of a node in its slot. -/
def gaps (o : Options α) (m : Metrics α) (slot : α) : Gaps α :=
  o.internalAlignment.gaps slot m.width

/-- A path that starts at a point. -/
def start (x y : α) : Path α := ⟨x, y, #[]⟩

/-- The lines from the slot's left end to the node and from the node to the slot's right end. -/
def sides (o : Options α) (m : Metrics α) (x y slot : α) : List (Piece α γ) :=
  let g := gaps o m slot
  [.track ((start x y).h g.left),
   .track ((start (x + g.left + m.width) (y + m.height)).h g.right)]

/-- Records sizes and kind if that is asked for. -/
def debugMarks (o : Options α) (sizes : List α) (kind : String) (a : Attributes (Value α)) :
    Attributes (Value α) :=
  if o.debug then (a.set "data-updown" (.numbers sizes)).set "data-type" (.text kind) else a

/-- The number of characters of a text, as a scalar. -/
def textLength (text : String) : α := Scalar.ofNat text.length

end Layout
end SyntaxDiagram
