import SyntaxDiagram.Scalar

/-!
# Paths

A path starts at a point and goes on by commands that are relative to the point reached.

* `Cardinal`, `Compass`, `Spin`: directions of arcs.
* `Command`: the steps of a path, with the move that each of them makes (`Command.offset`).
* `Path`: a start and its commands; `Path.finish` is the point where it ends.
* `Path.text`: the path data.
-/

namespace SyntaxDiagram

/-- Directions of quarter arcs. -/
inductive Cardinal where
  | north
  | east
  | south
  | west
  deriving Repr, DecidableEq

/-- Directions of eighth arcs. -/
inductive Compass where
  | north
  | northEast
  | east
  | southEast
  | south
  | southWest
  | west
  | northWest
  deriving Repr, DecidableEq

/-- Senses of rotation. -/
inductive Spin where
  | clockwise
  | counterClockwise
  deriving Repr, DecidableEq

/-- Whether a quarter arc turns clockwise. -/
def Cardinal.isClockwise : (source target : Cardinal) → Bool
  | .north, .east | .east, .south | .south, .west | .west, .north => true
  | _, _ => false

/-- A coordinate of an eighth arc: its sign, and whether it is the long side of the arc. -/
structure Reach where
  negative : Bool
  long : Bool
  deriving Repr, DecidableEq

/-- Where an eighth arc ends, seen from where it starts. -/
def Compass.reach : Spin → Compass → Reach × Reach
  | .clockwise, .north => (⟨false, true⟩, ⟨false, false⟩)
  | .clockwise, .northEast => (⟨false, false⟩, ⟨false, true⟩)
  | .clockwise, .east => (⟨true, false⟩, ⟨false, true⟩)
  | .clockwise, .southEast => (⟨true, true⟩, ⟨false, false⟩)
  | .clockwise, .south => (⟨true, true⟩, ⟨true, false⟩)
  | .clockwise, .southWest => (⟨true, false⟩, ⟨true, true⟩)
  | .clockwise, .west => (⟨false, false⟩, ⟨true, true⟩)
  | .clockwise, .northWest => (⟨false, true⟩, ⟨true, false⟩)
  | .counterClockwise, .north => (⟨true, true⟩, ⟨false, false⟩)
  | .counterClockwise, .northWest => (⟨true, false⟩, ⟨false, true⟩)
  | .counterClockwise, .west => (⟨false, false⟩, ⟨false, true⟩)
  | .counterClockwise, .southWest => (⟨false, true⟩, ⟨false, false⟩)
  | .counterClockwise, .south => (⟨false, true⟩, ⟨true, false⟩)
  | .counterClockwise, .southEast => (⟨false, false⟩, ⟨true, true⟩)
  | .counterClockwise, .east => (⟨true, false⟩, ⟨true, true⟩)
  | .counterClockwise, .northEast => (⟨true, true⟩, ⟨true, false⟩)

/-- One step of a path. -/
inductive Command (α : Type) where
  | move (dx dy : α)
  | line (dx dy : α)
  | horizontal (dx : α)
  | vertical (dy : α)
  /-- a quarter circle that turns from one direction to another -/
  | arc (radius : α) (source target : Cardinal)
  /-- an eighth of a circle that starts in a direction -/
  | eighth (radius : α) (source : Compass) (spin : Spin)
  /-- half a pixel to the right, which closes a hairline gap -/
  | nudge
  /-- path data as it stands -/
  | raw (data : String)
  deriving Repr

/-- A path with its start. -/
structure Path (α : Type) where
  x : α
  y : α
  commands : Array (Command α) := #[]
  deriving Repr

namespace Command

variable {α : Type} [Scalar α]

/-- The long side of an eighth arc. -/
def longSide (radius : α) : α := radius * Scalar.sin45

/-- The short side of an eighth arc. -/
def shortSide (radius : α) : α := radius - longSide radius

/-- The length of a coordinate of an eighth arc. -/
def side (radius : α) (r : Reach) : α := if r.long then longSide radius else shortSide radius

/-- The horizontal reach of a quarter arc. -/
def arcX (radius : α) (source target : Cardinal) : α :=
  if source = .east ∨ target = .west then -radius else radius

/-- The vertical reach of a quarter arc. -/
def arcY (radius : α) (source target : Cardinal) : α :=
  if source = .south ∨ target = .north then -radius else radius

/-- A length with its sign. -/
def signed (negative : Bool) (value : α) : α := if negative then -value else value

/-- The move that a command makes. Raw data is taken to come back to its start. -/
def offset : Command α → α × α
  | move dx dy | line dx dy => (dx, dy)
  | horizontal dx => (dx, 0)
  | vertical dy => (0, dy)
  | arc radius source target => (arcX radius source target, arcY radius source target)
  | eighth radius source spin =>
    let (h, v) := source.reach spin
    (signed h.negative (side radius h), signed v.negative (side radius v))
  | nudge => (1 / 2, 0)
  | raw _ => (0, 0)

/-- The sweep flag of an arc. -/
def flag (clockwise : Bool) : String := if clockwise then "1" else "0"

variable (number : α → String)

/-- A coordinate of an eighth arc. The sign stands in front of the length as written. -/
def reachText (radius : α) (r : Reach) : String :=
  (if r.negative then "-" else "") ++ number (side radius r)

/-- The radii of an arc and its flags. -/
def arcText (radius : α) (clockwise : Bool) : String :=
  " a " ++ number radius ++ " " ++ number radius ++ " 0 0 " ++ flag clockwise

/-- The path data of a command. -/
def text : Command α → String
  | move dx dy => " m " ++ number dx ++ " " ++ number dy
  | line dx dy => " l " ++ number dx ++ " " ++ number dy
  | horizontal dx => " h " ++ number dx
  | vertical dy => " v " ++ number dy
  | arc radius source target =>
    arcText number radius (source.isClockwise target) ++ " " ++
      number (arcX radius source target) ++ " " ++ number (arcY radius source target)
  | eighth radius source spin =>
    let (h, v) := source.reach spin
    arcText number radius (spin = .clockwise) ++ " " ++ reachText number radius h ++ " " ++
      reachText number radius v
  | nudge => "h.5"
  | raw data => data

end Command

namespace Path

variable {α : Type} [Scalar α]

/-- One more command. -/
def push (p : Path α) (c : Command α) : Path α := { p with commands := p.commands.push c }

/-- The point behind a run of commands. -/
def walk (commands : Array (Command α)) (start : α × α) : α × α :=
  commands.foldl (fun p c => (p.1 + c.offset.1, p.2 + c.offset.2)) start

/-- The point where a path ends. -/
def finish (p : Path α) : α × α := walk p.commands (p.x, p.y)

/-- A command moves the end of a path. -/
theorem finish_push (p : Path α) (c : Command α) :
    (p.push c).finish = (p.finish.1 + c.offset.1, p.finish.2 + c.offset.2) := by
  simp only [finish, push, walk, Array.foldl_push]

/-- A horizontal line. -/
def h (p : Path α) (dx : α) : Path α := p.push (.horizontal dx)

/-- A vertical line. -/
def v (p : Path α) (dy : α) : Path α := p.push (.vertical dy)

/-- A move without a line. -/
def m (p : Path α) (dx dy : α) : Path α := p.push (.move dx dy)

/-- A slanted line. -/
def l (p : Path α) (dx dy : α) : Path α := p.push (.line dx dy)

/-- A line to the right, unless its length is negative. -/
def right (p : Path α) (length : α) : Path α := p.h (Scalar.clamp length)

/-- A line to the left, unless its length is negative. -/
def left (p : Path α) (length : α) : Path α := p.h (-(Scalar.clamp length))

/-- A line down, unless its length is negative. -/
def down (p : Path α) (length : α) : Path α := p.v (Scalar.clamp length)

/-- A line up, unless its length is negative. -/
def up (p : Path α) (length : α) : Path α := p.v (-(Scalar.clamp length))

/-- A quarter arc. -/
def arc (p : Path α) (radius : α) (source target : Cardinal) : Path α :=
  p.push (.arc radius source target)

/-- An eighth arc. -/
def eighth (p : Path α) (radius : α) (source : Compass) (spin : Spin) : Path α :=
  p.push (.eighth radius source spin)

/-- Half a pixel to the right. -/
def nudge (p : Path α) : Path α := p.push .nudge

/-- Path data as it stands. -/
def raw (p : Path α) (data : String) : Path α := p.push (.raw data)

/-- The path data of a path. -/
def text (number : α → String) (p : Path α) : String :=
  "M " ++ number p.x ++ " " ++ number p.y ++
    (p.commands.foldl (fun s c => s ++ c.text number) "")

/-- The same path from another start. -/
def shift (dx dy : α) (p : Path α) : Path α := { p with x := p.x + dx, y := p.y + dy }

end Path
end SyntaxDiagram
