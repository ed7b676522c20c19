import SyntaxDiagram.Error
import SyntaxDiagram.Path

/-!
# Names of directions

* `Cardinal.ofName`, `Compass.ofName`, `Spin.ofName`: the direction of a name, or an error.
-/

namespace SyntaxDiagram

/-- The cardinal direction of a name. -/
def Cardinal.ofName : String → Except Error Cardinal
  | "North" => .ok .north
  | "East" => .ok .east
  | "South" => .ok .south
  | "West" => .ok .west
  | name => .error (.unknownDirection name)

/-- The point of the compass of a name. -/
def Compass.ofName : String → Except Error Compass
  | "North" => .ok .north
  | "North East" => .ok .northEast
  | "East" => .ok .east
  | "South East" => .ok .southEast
  | "South" => .ok .south
  | "South West" => .ok .southWest
  | "West" => .ok .west
  | "North West" => .ok .northWest
  | name => .error (.unknownDirection name)

/-- The sense of rotation of a name. -/
def Spin.ofName : String → Except Error Spin
  | "Clockwise" => .ok .clockwise
  | "Counter clockwise" => .ok .counterClockwise
  | name => .error (.unknownSpin name)

end SyntaxDiagram
