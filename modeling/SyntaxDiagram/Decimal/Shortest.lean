/-!
# Shortest decimals

A binary floating-point number names a whole interval of reals: those that round to it.

* `Decimal.Binary`: a finite number as `mantissa * 2 ^ exponent`.
* `Decimal.shortest`: the decimal with the fewest digits inside that interval. Of two such
  decimals the nearer one is taken, and a `Decimal.Tie` says which if both are as near.
-/

namespace SyntaxDiagram.Decimal

/-- A positive number `mantissa * 2 ^ exponent`. -/
structure Binary where
  mantissa : Nat
  exponent : Int
  /-- whether the next smaller number is only half as far away as the next larger one -/
  narrowBelow : Bool
  deriving Repr, DecidableEq

/-- The magnitude of a finite float, read off its bits. -/
def Binary.ofFloat (x : Float) : Binary :=
  -- the leading bit of all but the smallest numbers is not stored
  let hidden := Nat.pow 2 52
  let bits := x.toBits.toNat
  let fraction := bits % hidden
  let scale := bits / hidden % Nat.pow 2 11
  if scale = 0 then ⟨fraction, -1074, false⟩
  else ⟨hidden + fraction, (scale : Int) - 1075, fraction = 0 && 1 < scale⟩

/-- A decimal `digits * 10 ^ exponent`. -/
structure Digits where
  digits : Nat
  exponent : Int
  deriving Repr, DecidableEq

/-- A positive number over the common denominator of its rounding interval. -/
structure Interval where
  lower : Nat
  value : Nat
  upper : Nat
  denominator : Nat
  /-- whether the ends of the interval round to the number as well -/
  closed : Bool

/-- Half the way to the neighbours on both sides; the ends belong to even mantissas. -/
def Binary.interval (b : Binary) : Interval :=
  let up := Nat.pow 2 (b.exponent - 2).toNat
  { lower := (4 * b.mantissa - if b.narrowBelow then 1 else 2) * up
    value := 4 * b.mantissa * up
    upper := (4 * b.mantissa + 2) * up
    denominator := Nat.pow 2 (2 - b.exponent).toNat
    closed := b.mantissa % 2 = 0 }

/-- Which of two neighbours a number halfway between them goes to. -/
inductive Tie where
  /-- the one with the even last digit -/
  | even
  /-- the larger one -/
  | up
  deriving Repr, DecidableEq

/-- The neighbour that a number halfway between `below` and `below + 1` goes to. -/
def Tie.resolve (below : Nat) : Tie → Nat
  | even => below + below % 2
  | up => below + 1

namespace Interval

/-- Whether `d * 10 ^ k` lies in the interval. -/
def contains (i : Interval) (d : Nat) (k : Int) : Bool :=
  let point := d * i.denominator * Nat.pow 10 k.toNat
  let scale := Nat.pow 10 (-k).toNat
  if i.closed then i.lower * scale ≤ point && point ≤ i.upper * scale
  else i.lower * scale < point && point < i.upper * scale

/-- The number of decimal places in front of the point, or minus the zeros behind it: the `e`
with `10 ^ (e - 1) ≤ value < 10 ^ e`. -/
def magnitude (i : Interval) : Int :=
  if i.denominator ≤ i.value then (Nat.toDigits 10 (i.value / i.denominator)).length
  else
    let zeros := (Nat.toDigits 10 ((i.denominator - 1) / i.value)).length
    1 - zeros

/-- The best decimal on the grid of multiples of `10 ^ k`, if the interval holds one. -/
def onGrid? (tie : Tie) (i : Interval) (k : Int) : Option Digits :=
  let value := i.value * Nat.pow 10 (-k).toNat
  let unit := i.denominator * Nat.pow 10 k.toNat
  let below := value / unit
  let twiceOver := 2 * (value % unit)
  let nearer := if twiceOver < unit then below
    else if unit < twiceOver then below + 1
    else tie.resolve below
  let farther := 2 * below + 1 - nearer
  if i.contains nearer k then some ⟨nearer, k⟩
  else if i.contains farther k then some ⟨farther, k⟩
  else none

/-- The first grid with a hit, from `count` digits on. -/
def search (tie : Tie) (i : Interval) : (fuel : Nat) → (count : Nat) → Digits
  | 0, count =>
    ⟨i.value * Nat.pow 10 (count - i.magnitude).toNat / i.denominator, i.magnitude - count⟩
  | fuel + 1, count =>
    match i.onGrid? tie (i.magnitude - count) with
    | some d => d
    | none => i.search tie fuel (count + 1)

end Interval

/-- The shortest decimal that reads back as the positive number. Seventeen digits always do. -/
def shortest (tie : Tie) (b : Binary) : Digits := b.interval.search tie 17 1

end SyntaxDiagram.Decimal
