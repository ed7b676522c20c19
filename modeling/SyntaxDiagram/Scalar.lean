/-!
# Scalars

Layout arithmetic over any kind of number.

* `Scalar α`: the operations that sizing and drawing use. Programs run on `Float`; the same
  definitions make sense over the rationals or the reals.
* `Scalar.largest`: the largest of one or more values.
-/

namespace SyntaxDiagram

/-- The numbers of a layout. -/
class Scalar (α : Type) extends
    Add α, Sub α, Mul α, Div α, Neg α, Max α, Min α, LT α, LE α, BEq α where
  /-- a count as a number -/
  ofNat : Nat → α
  /-- the strict order is decided by computation -/
  decLt : ∀ a b : α, Decidable (a < b)
  /-- the order is decided by computation -/
  decLe : ∀ a b : α, Decidable (a ≤ b)
  /-- the value itself, or a least value in place of something that is not a number -/
  orLeast : α → α
  /-- the sine of 45 degrees -/
  sin45 : α
  /-- the square root of two -/
  sqrtTwo : α

namespace Scalar

variable {α : Type} [Scalar α]

instance (a b : α) : Decidable (a < b) := Scalar.decLt a b

instance (a b : α) : Decidable (a ≤ b) := Scalar.decLe a b

/-- Numerals are counts. -/
instance (priority := low) (n : Nat) : OfNat α n := ⟨Scalar.ofNat n⟩

/-- The larger of two floats; one that is not a number loses, and of two equal ones, which the
zeros of both signs are, the second is kept. -/
def floatMax (a b : Float) : Float :=
  if a.isNaN || b ≥ a then b else a

/-- The smaller of two floats, with the preferences of `floatMax`. -/
def floatMin (a b : Float) : Float :=
  if a.isNaN || b ≤ a then b else a

instance : Scalar Float where
  toMax := ⟨floatMax⟩
  toMin := ⟨floatMin⟩
  ofNat n := Float.ofNat n
  decLt := inferInstance
  decLe := inferInstance
  orLeast a := if a.isNaN then -1.0 / 0.0 else a
  sin45 := 0.7071067811865475
  sqrtTwo := 1.4142135623730951

/-- The larger of a value and zero. -/
def clamp (a : α) : α := max a 0

/-- The largest of `first` and `rest`. -/
def largest (first : α) (rest : List α) : α := rest.foldl max (orLeast first)

/-- The sum of a list, added from left to right. It starts from the negated zero, the value that
no addition can tell from nothing at all. -/
def sum (values : List α) : α := values.foldl (· + ·) (-0)

end Scalar
end SyntaxDiagram
