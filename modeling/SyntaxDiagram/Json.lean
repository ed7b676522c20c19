/-!
# JSON values

* `Json`: a value. An object keeps its members in order, repeated names included.
* `Json.Number`: a number, which is an integer or a float. `Number.toFloat` and `Number.toFloat32`
  are the floats nearest to it.
* `Json.depth`: how deep arrays and objects are nested in a value.
-/

namespace SyntaxDiagram

/-- A JSON number. -/
inductive Json.Number where
  | integer (n : Int)
  | float (x : Float)
  deriving Repr, BEq

/-- A JSON value. -/
inductive Json where
  | null
  | bool (b : Bool)
  | number (n : Json.Number)
  | string (s : String)
  | array (items : List Json)
  | object (members : List (String × Json))
  deriving Repr

namespace Json

/-- An integer as the nearest float. -/
def floatOfInt (n : Int) : Float :=
  let magnitude := Float.ofScientific n.natAbs false 0
  if n < 0 then -magnitude else magnitude

/-- An integer as the nearest single float. -/
def singleOfInt (n : Int) : Float32 :=
  let magnitude := Float32.ofScientific n.natAbs false 0
  if n < 0 then -magnitude else magnitude

/-- A number as a float. -/
def Number.toFloat : Number → Float
  | integer n => floatOfInt n
  | float x => x

/-- A number as a single float. -/
def Number.toFloat32 : Number → Float32
  | integer n => singleOfInt n
  | float x => x.toFloat32

mutual

/-- The depth of nesting. -/
def depth : Json → Nat
  | null | bool _ | number _ | string _ => 0
  | array items => depths items + 1
  | object members => memberDepths members + 1

/-- The greatest depth of several values. -/
def depths : List Json → Nat
  | [] => 0
  | j :: rest => max j.depth (depths rest)

/-- The greatest depth of several members. -/
def memberDepths : List (String × Json) → Nat
  | [] => 0
  | (_, j) :: rest => max j.depth (memberDepths rest)

end

end Json
end SyntaxDiagram
