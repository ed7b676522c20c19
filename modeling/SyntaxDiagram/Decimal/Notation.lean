import SyntaxDiagram.Decimal.Shortest

/-!
# Written numbers

How a number is put into text, once its shortest digits are known.

* `Decimal.Style`: what a written form decides, and `Style.write`, which follows it.
* `Decimal.svg`: numbers in markup.
* `Decimal.prose`: numbers in messages.
* `Decimal.data`: numbers in data files.
-/

namespace SyntaxDiagram.Decimal

/-- The decisions of a written form. A number in `[10 ^ e, 10 ^ (e + 1))` has the order `e`. -/
structure Style where
  /-- which of two shortest forms is taken if both are as near -/
  tie : Tie
  /-- the smallest order that is written without an exponent -/
  least : Option Int
  /-- the largest order that is written without an exponent -/
  greatest : Option Int
  /-- a whole number keeps a zero behind the point -/
  wholePoint : Bool
  zero : String
  negativeZero : String
  infinity : String
  negativeInfinity : String
  notNumber : String

/-- Digits without zeros at their end, those counted in the exponent. -/
def Digits.strip (d : Digits) : Digits :=
  if d.digits % 10 = 0 ∧ d.digits ≠ 0 then strip ⟨d.digits / 10, d.exponent + 1⟩ else d
termination_by d.digits
decreasing_by omega

/-- A decimal point behind the first digit, unless that is the only one. -/
def pointed (digits : List Char) : List Char :=
  match digits with
  | [] => []
  | [d] => [d]
  | d :: rest => d :: '.' :: rest

/-- Digits with an exponent. -/
def scientific (digits : List Char) (order : Int) : List Char :=
  pointed digits ++ 'e' :: (if order < 0 then '-' else '+') :: Nat.toDigits 10 order.natAbs

/-- Digits with their point in place. -/
def positional (wholePoint : Bool) (digits : List Char) (order : Int) : List Char :=
  if order < 0 then
    '0' :: '.' :: (List.replicate (-order - 1).toNat '0' ++ digits)
  else
    let front := order.toNat + 1
    if digits.length ≤ front then
      digits ++ List.replicate (front - digits.length) '0' ++
        (if wholePoint then ['.', '0'] else [])
    else digits.take front ++ '.' :: digits.drop front

namespace Style

/-- The magnitude of a nonzero number. -/
def writeDigits (s : Style) (d : Digits) : String :=
  let d := d.strip
  let digits := Nat.toDigits 10 d.digits
  let order := d.exponent + digits.length - 1
  let tooSmall := match s.least with | some e => order < e | none => false
  let tooLarge := match s.greatest with | some e => e < order | none => false
  String.ofList <|
    if tooSmall || tooLarge then scientific digits order
    else positional s.wholePoint digits order

/-- The written form of a number. -/
def write (s : Style) (x : Float) : String :=
  let negative := x.toBits >>> 63 = 1
  if x.isNaN then s.notNumber
  else if x.isInf then (if negative then s.negativeInfinity else s.infinity)
  else
    let b := Binary.ofFloat x
    if b.mantissa = 0 then (if negative then s.negativeZero else s.zero)
    else
      let digits := s.writeDigits (shortest s.tie b)
      if negative then "-" ++ digits else digits

end Style

/-- Numbers in markup: no sign on zero, an exponent from `1e+21` up and from `1e-7` down. -/
def svg : Style where
  tie := .even
  least := some (-6)
  greatest := some 20
  wholePoint := false
  zero := "0"
  negativeZero := "0"
  infinity := "Infinity"
  negativeInfinity := "-Infinity"
  notNumber := "NaN"

/-- Numbers in messages: never an exponent, and a half goes up. -/
def prose : Style where
  tie := .up
  least := none
  greatest := none
  wholePoint := false
  zero := "0"
  negativeZero := "-0"
  infinity := "inf"
  negativeInfinity := "-inf"
  notNumber := "NaN"

/-- Numbers in data files: always told from an integer, an exponent from `1e+16` up and from
`1e-6` down, and nothing at all for what is not a finite number. -/
def data : Style where
  tie := .even
  least := some (-5)
  greatest := some 15
  wholePoint := true
  zero := "0.0"
  negativeZero := "-0.0"
  infinity := "null"
  negativeInfinity := "null"
  notNumber := "null"

end SyntaxDiagram.Decimal
