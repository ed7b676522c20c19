import Mathlib.Algebra.Order.Field.Basic
import Mathlib.Algebra.Order.Field.Rat
import SyntaxDiagram.Scalar

/-!
# Exact scalars

Layouts over numbers that do not round.

* `ExactScalar`: an ordered field with two constants in the place of the irrational ones. Layout
  arithmetic over it is that of the field.
* The rationals with the constants of floats are one.
-/

namespace SyntaxDiagram

/-- The numbers of a layout that is worked out without rounding. -/
class ExactScalar (K : Type) extends Field K, LinearOrder K, IsStrictOrderedRing K where
  sin45 : K
  sqrtTwo : K

namespace ExactScalar

instance {K : Type} [ExactScalar K] : Scalar K where
  ofNat n := n
  decLt := inferInstance
  decLe := inferInstance
  beq a b := decide (a = b)
  orLeast a := a
  sin45 := sin45
  sqrtTwo := sqrtTwo

instance : ExactScalar Rat where
  sin45 := 7071067811865475 / 10000000000000000
  sqrtTwo := 14142135623730951 / 10000000000000000

variable {K : Type} [ExactScalar K]

@[simp] theorem zero_eq : @OfNat.ofNat K 0 (Scalar.instOfNat 0) = 0 := Nat.cast_zero

theorem add_zero_eq (a : K) : a + @OfNat.ofNat K 0 (Scalar.instOfNat 0) = a :=
  (congrArg (a + ·) zero_eq).trans (add_zero a)

end ExactScalar
end SyntaxDiagram
