import SyntaxDiagram.Json.Written

/-!
# Literals

Parts of numbers and strings that all notations of data have in common.

* `Json.digits`: a run of digits at the front of a text.
* `Json.NumberText`: a number as it is written, and its two readings: `NumberText.value` by one
  rounding for each of a few steps, `NumberText.nearest` by a single one.
* `Json.decodeUnits`: characters from 16-bit units, given what the halves of a surrogate pair make.
-/

namespace SyntaxDiagram.Json

/-- The value of a hexadecimal digit. -/
def hexDigit? (c : Char) : Option Nat :=
  if '0' ≤ c ∧ c ≤ '9' then some (c.toNat - 48)
  else if 'a' ≤ c ∧ c ≤ 'f' then some (c.toNat - 87)
  else if 'A' ≤ c ∧ c ≤ 'F' then some (c.toNat - 55)
  else none

/-- The number that hexadecimal digits make. -/
def hexValue? (cs : List Char) : Option Nat :=
  cs.foldlM (fun n c => (hexDigit? c).map (16 * n + ·)) 0

/-- The number that decimal digits make. -/
def decimalValue (digits : List Nat) : Nat := digits.foldl (fun n d => 10 * n + d) 0

/-- The digits at the front of a text, and the rest of it. -/
def digits (cs : List Char) : List Nat × List Char :=
  ((cs.takeWhile Char.isDigit).map fun c => c.toNat - 48, cs.dropWhile Char.isDigit)

/-- A decimal number as it is written. -/
structure NumberText where
  negative : Bool
  whole : List Nat
  /-- the digits behind the point, if there is a point -/
  fraction : Option (List Nat) := none
  /-- the exponent, if there is one -/
  exponent : Option Int := none
  deriving Repr

/-- An exponent at the front of a text: none, one, or something that is not an exponent. -/
def exponent (cs : List Char) : Option (Option Int × List Char) :=
  let signed (negative : Bool) (cs : List Char) : Option (Option Int × List Char) :=
    match digits cs with
    | ([], _) => none
    | (ds, rest) =>
      let e : Int := decimalValue ds
      some (some (if negative then -e else e), rest)
  match cs with
  | 'e' :: '-' :: rest | 'E' :: '-' :: rest => signed true rest
  | 'e' :: '+' :: rest | 'E' :: '+' :: rest => signed false rest
  | 'e' :: rest | 'E' :: rest => signed false rest
  | rest => some (none, rest)

/-- A power of ten. -/
def powerOfTen (n : Nat) : Float := Float.ofScientific 1 false n

/-- As many digits as fit a 64-bit word behind a number, and how many are left over. -/
def pack (n : Nat) : List Nat → Nat × Nat
  | [] => (n, 0)
  | d :: rest => if 10 * n + d < UInt64.size then pack (10 * n + d) rest else (n, rest.length + 1)

/-- `x * 10 ^ e`, or nothing if that is beyond all floats. Each factor is one step. -/
def scale (x : Float) (e : Int) : Option Float :=
  if 0 ≤ e then
    if e ≤ 308 then
      let y := x * powerOfTen e.toNat
      if y.isInf then none else some y
    else if x == 0 then some x else none
  else if -308 ≤ e then some (x / powerOfTen (-e).toNat)
  else if x == 0 then some x
  else scale (x / powerOfTen 308) (e + 308)
termination_by e.natAbs
decreasing_by omega

namespace NumberText

/-- The value of a number, unless that is beyond all floats. Digits beyond 64 bits only count as
places. -/
def value (t : NumberText) : Option Number :=
  let (n, left) := pack 0 t.whole
  let sign (x : Float) : Float := if t.negative then -x else x
  if left = 0 && t.fraction.isNone && t.exponent.isNone then
    if !t.negative then some (.integer n)
    else if 0 < n ∧ n ≤ UInt64.size / 2 then some (.integer (-n))
    else some (.float (-(UInt64.ofNat n).toFloat))
  else
    let fraction := t.fraction.getD []
    let (m, dropped) := pack n fraction
    let places : Int := (left : Int) - (fraction.length - dropped : Nat) + t.exponent.getD 0
    (scale (UInt64.ofNat m).toFloat places).map fun x => .float (sign x)

/-- The float nearest to a number; infinite for one that is beyond all floats. -/
def nearest (t : NumberText) : Float :=
  let fraction := t.fraction.getD []
  let n := decimalValue (t.whole ++ fraction)
  let e : Int := t.exponent.getD 0 - fraction.length
  let magnitude :=
    if n = 0 then 0
    else if 400 < e then 1 / 0
    else if e < -((t.whole.length + fraction.length : Nat) : Int) - 400 then 0
    else Float.ofScientific n (e < 0) e.natAbs
  if t.negative then -magnitude else magnitude

end NumberText

/-- Whether a unit is the first half of a surrogate pair. -/
def isLead (u : Nat) : Bool := 0xD800 ≤ u && u < 0xDC00

/-- Whether a unit is the second half of a surrogate pair. -/
def isTrail (u : Nat) : Bool := 0xDC00 ≤ u && u < 0xE000

/-- The characters of a text given in units, where `pair` is the code of a surrogate pair; half a
surrogate pair is no character. -/
def decodeUnits (pair : Nat → Nat → Nat) : List Nat → Option (List Char)
  | [] => some []
  | [u] => if isLead u || isTrail u then none else some [Char.ofNat u]
  | u :: v :: rest =>
    if isLead u then
      if isTrail v then (decodeUnits pair rest).map (Char.ofNat (pair u v) :: ·) else none
    else if isTrail u then none
    else (decodeUnits pair (v :: rest)).map (Char.ofNat u :: ·)

end SyntaxDiagram.Json
