import Mathlib
import SyntaxDiagram.Description

/-!
# Rounded counts

The number of a branch is given as a number of 64 bits, and it is compared with the number of
branches after that has been rounded to 64 bits too. Rounding may move the number of branches, but
never past another number of 64 bits: what is below the rounded count is below the count.

* `Binary64.value`: the number that a mantissa and an exponent stand for.
* `Binary64.Canonical`: the one form in which a number is stored. Numbers in this form compare by
  their exponents first (`Binary64.Canonical.order`).
* `Binary64.Rounds`: what a number may be rounded to. Rounding, packing and multiplication by one
  give nothing else.
* `Binary64.value_lt_of_not_le_ofNat`: a number below a rounded count.
-/

namespace SyntaxDiagram.Binary64

open Float.Model
open Float.Model.UnpackedFloat

/-! ## Values -/

/-- The number of a mantissa and an exponent. -/
def value (m : Nat) (e : Int) : Rat := m * 2 ^ e

theorem value_le_value {m m' : Nat} (h : m ≤ m') (e : Int) : value m e ≤ value m' e := by
  have hpow : (0 : Rat) ≤ 2 ^ e := by positivity
  exact mul_le_mul_of_nonneg_right (Nat.cast_le.2 h) hpow

theorem value_le_value_iff {m m' : Nat} {e : Int} : value m e ≤ value m' e ↔ m ≤ m' := by
  have hpow : (0 : Rat) < 2 ^ e := by positivity
  rw [value, value, mul_le_mul_iff_left₀ hpow, Nat.cast_le]

/-- A power of two can be moved from the mantissa to the exponent. -/
theorem value_mul_pow (m k : Nat) (e : Int) : value (m * 2 ^ k) e = value m (e + k) := by
  rw [value, value, zpow_add₀ (by norm_num), zpow_natCast]
  push_cast
  rw [mul_right_comm, mul_assoc]

theorem value_zero (n : Nat) : value n 0 = n := by
  rw [value, zpow_zero, mul_one]

/-! ## The form of stored numbers -/

/-- The form in which a positive number is stored: 53 bits of which the first is set, unless the
exponent cannot be any less. -/
structure Canonical (m : Nat) (e : Int) : Prop where
  pos : 0 < m
  short : m < 2 ^ 53
  least : -1074 ≤ e
  full : 2 ^ 52 ≤ m ∨ e = -1074

namespace Canonical

variable {m m' : Nat} {e e' : Int}

/-- A number with a greater exponent is greater. -/
theorem value_lt (h : Canonical m e) (h' : 2 ^ 52 ≤ m') (he : e < e') :
    value m e < value m' e' := by
  have hpow : (0 : Rat) < 2 ^ e := by positivity
  calc
    value m e < value (2 ^ 53) e := by
      rw [value, value, mul_lt_mul_iff_left₀ hpow, Nat.cast_lt]
      exact h.short
    _ = value (2 ^ 52) (e + 1) := value_mul_pow (2 ^ 52) 1 e
    _ ≤ value (2 ^ 52) e' := by
      have hexp : (2 : Rat) ^ (e + 1) ≤ 2 ^ e' := zpow_le_zpow_right₀ (by norm_num) he
      exact mul_le_mul_of_nonneg_left hexp (Nat.cast_nonneg _)
    _ ≤ value m' e' := value_le_value h' e'

/-- **Stored numbers compare by their exponents first.** -/
theorem order (h : Canonical m e) (h' : Canonical m' e') (hle : value m e ≤ value m' e') :
    e < e' ∨ e = e' ∧ m ≤ m' := by
  rcases lt_trichotomy e e' with hlt | rfl | hgt
  · exact .inl hlt
  · exact .inr ⟨rfl, value_le_value_iff.1 hle⟩
  · -- the greater exponent is not the least one, so its mantissa is full
    have hfull : 2 ^ 52 ≤ m := by
      rcases h.full with hfull | hleast
      · exact hfull
      · have := h'.least
        omega
    exact absurd (h'.value_lt hfull hgt) (not_lt.2 hle)

end Canonical

/-- What a number that is not negative is stored as. -/
inductive Stored : UnpackedFloat → Prop where
  | zero (s : Sign) : Stored (.zero s)
  | finite {m : Nat} {e : Int} (h : Canonical m e) : Stored (.finite .positive m e h.pos)
  | infinity : Stored (.infinity .positive)

/-- A number is not more than a bound. -/
def AtMost (bound : Rat) : UnpackedFloat → Prop
  | .zero _ => 0 ≤ bound
  | .finite _ m e _ => value m e ≤ bound
  | _ => False

/-- What a number may be rounded to: something that is not more than any stored number from there
on. -/
structure Rounds (v : Rat) (u : UnpackedFloat) : Prop where
  stored : Stored u
  atMost : ∀ {m : Nat} {e : Int}, Canonical m e → e ≤ 971 → v ≤ value m e → AtMost (value m e) u

/-! ## Shifts -/

theorem mantissa_shift (m k : Nat) :
    ((⟨m, false, false⟩ : ExtendedMantissa) >>> k).mantissa = m / 2 ^ k := by
  induction k with
  | zero => exact (Nat.div_one m).symm
  | succ k ih =>
    have hstep : ((⟨m, false, false⟩ : ExtendedMantissa) >>> (k + 1)).mantissa =
        ((⟨m, false, false⟩ : ExtendedMantissa) >>> k).mantissa / 2 := rfl
    rw [hstep, ih, Nat.div_div_eq_div_mul, Nat.pow_succ]

/-- If a shift left something behind, the mantissa is not a multiple of what was divided by. -/
theorem lt_of_residue (m k : Nat) :
    let em := (⟨m, false, false⟩ : ExtendedMantissa) >>> k
    (em.roundBit || em.stickyBit) = true → m / 2 ^ k * 2 ^ k < m := by
  induction k with
  | zero => exact fun h => absurd h Bool.false_ne_true
  | succ k ih =>
    intro em hresidue
    let before := (⟨m, false, false⟩ : ExtendedMantissa) >>> k
    have hbits : (before.mantissa % 2 != 0 || (before.roundBit || before.stickyBit)) = true :=
      hresidue
    rw [show before.mantissa = m / 2 ^ k from mantissa_shift m k, Bool.or_eq_true] at hbits
    have hhalf : m / 2 ^ (k + 1) = m / 2 ^ k / 2 := by
      rw [Nat.pow_succ, Nat.div_div_eq_div_mul]
    have hle : m / 2 ^ k * 2 ^ k ≤ m := Nat.div_mul_le_self m _
    rw [hhalf, Nat.pow_succ, ← Nat.mul_assoc, Nat.mul_right_comm]
    rcases hbits with hodd | hresidue
    · have hodd : m / 2 ^ k % 2 ≠ 0 := by simpa using hodd
      have hlt : m / 2 ^ k / 2 * 2 < m / 2 ^ k := by omega
      exact (Nat.mul_lt_mul_of_pos_right hlt (Nat.two_pow_pos k)).trans_le hle
    · have hlt : m / 2 ^ k * 2 ^ k < m := ih hresidue
      have hhalves : m / 2 ^ k / 2 * 2 ≤ m / 2 ^ k := Nat.div_mul_le_self _ 2
      exact (Nat.mul_le_mul_right _ hhalves).trans_lt hlt

theorem le_roundedMantissa (em : ExtendedMantissa) : em.mantissa ≤ em.roundedMantissa := by
  rcases em with ⟨m, r, s⟩
  cases r <;> cases s <;>
    simp [ExtendedMantissa.roundedMantissa, ExtendedMantissa.accuracy, Accuracy.roundToNearestEven]

/-- **Rounding a mantissa does not pass any mantissa from there on.** Only what was left behind can
make it one more, and then there was room for it. -/
theorem roundedMantissa_le {m k bound : Nat} (h : m ≤ bound * 2 ^ k) :
    ((⟨m, false, false⟩ : ExtendedMantissa) >>> k).roundedMantissa ≤ bound := by
  have hresidue := lt_of_residue m k
  have hmantissa := mantissa_shift m k
  have hfloor : m / 2 ^ k ≤ bound := by
    rw [Nat.div_le_iff_le_mul_add_pred (Nat.two_pow_pos k), Nat.mul_comm]
    omega
  generalize (⟨m, false, false⟩ : ExtendedMantissa) >>> k = em at hresidue hmantissa
  obtain ⟨q, r, s⟩ := em
  obtain rfl : q = m / 2 ^ k := hmantissa
  by_cases hexact : (r || s) = true
  · have hlt : m / 2 ^ k < bound :=
      Nat.lt_of_mul_lt_mul_right ((hresidue hexact).trans_le h)
    cases r <;> cases s <;>
      simp [ExtendedMantissa.roundedMantissa, ExtendedMantissa.accuracy,
        Accuracy.roundToNearestEven] <;> omega
  · obtain ⟨rfl, rfl⟩ : r = false ∧ s = false := by simpa using hexact
    exact hfloor

/-! ## Rounding -/

theorem targetExponent_eq (m : Nat) (e : Int) :
    Format.binary64.targetExponent (totalExponent m e) = max (m.log2 + e - 52) (-1074) := by
  have hleast : Format.binary64.minExponent = -1074 := rfl
  have hbits : Format.binary64.mantissaBits = 53 := rfl
  rw [Format.targetExponent, hleast, hbits, totalExponent]
  congr 1
  omega

/-- A number that is short enough is not shifted. -/
theorem shift_short {m : Nat} {e : Int} (hm : m < 2 ^ 53) (he : -1074 ≤ e) :
    shiftToTargetExponent Format.binary64 m e .exact = (⟨m, false, false⟩, e) := by
  have hlog : m.log2 ≤ 52 := by
    by_cases hzero : m = 0
    · simp [hzero]
    · exact Nat.lt_succ_iff.1 ((Nat.log2_lt hzero).2 hm)
  have hstay : (Format.binary64.targetExponent (totalExponent m e) - e).toNat = 0 := by
    rw [targetExponent_eq]
    omega
  simp [shiftToTargetExponent, shiftToExponent, hstay, HShiftRight.hShiftRight, Nat.repeat,
    ExtendedMantissa.ofMantissaAndAccuracy]

/-- A mantissa that has been rounded up to a bit more gives that bit to the exponent. -/
theorem shift_carry {e : Int} (he : -1074 ≤ e) :
    shiftToTargetExponent Format.binary64 (2 ^ 53) e .exact = (⟨2 ^ 52, false, false⟩, e + 1) := by
  have htarget : Format.binary64.targetExponent (totalExponent (2 ^ 53) e) = e + 1 := by
    rw [targetExponent_eq, Nat.log2_two_pow]
    omega
  rw [shiftToTargetExponent, htarget]
  simp [shiftToExponent, HShiftRight.hShiftRight, Nat.repeat,
    ExtendedMantissa.ofMantissaAndAccuracy, ExtendedMantissa.shiftRightOne]

section

variable (m : Nat) (e : Int)

/-- The exponent that a number is rounded to. -/
def target : Int := max (m.log2 + e - 52) (-1074)

/-- How many bits of a number are rounded away. -/
def excess : Nat := (target m e - e).toNat

/-- The mantissa of a number once it is rounded. -/
def rounded : Nat := ((⟨m, false, false⟩ : ExtendedMantissa) >>> excess m e).roundedMantissa

variable {m e}

theorem target_eq (he : e ≤ target m e) : target m e = e + excess m e := by
  rw [excess]
  omega

theorem rounded_le : rounded m e ≤ 2 ^ 53 := by
  apply roundedMantissa_le
  have hbits : m.log2 + 1 ≤ 53 + excess m e := by
    rw [excess, target]
    omega
  calc
    m ≤ 2 ^ (m.log2 + 1) := Nat.lt_log2_self.le
    _ ≤ 2 ^ (53 + excess m e) := Nat.pow_le_pow_right (by decide) hbits
    _ = 2 ^ 53 * 2 ^ excess m e := Nat.pow_add ..

/-- The mantissa is full unless the exponent is the least one. -/
theorem full_or_least (he : e ≤ target m e) :
    2 ^ 52 ≤ m / 2 ^ excess m e ∨ target m e = -1074 := by
  by_cases hleast : target m e = -1074
  · exact .inr hleast
  · left
    have hlog : m.log2 = 52 + excess m e := by
      rw [target] at hleast he
      rw [excess, target]
      omega
    have hm : m ≠ 0 := by
      rintro rfl
      simp at hlog
      omega
    rw [Nat.le_div_iff_mul_le (Nat.two_pow_pos _), ← Nat.pow_add, ← hlog]
    exact Nat.log2_self_le hm

/-- **Rounding does not pass a stored number.** The stored number either has the exponent of the
result to spare, and then its mantissa is a bound for the rounded one; or it is too small. -/
theorem value_rounded_le (he : e ≤ target m e) {m' : Nat} {e' : Int} (h : Canonical m' e')
    (hle : value m e ≤ value m' e') : value (rounded m e) (target m e) ≤ value m' e' := by
  have hexp := target_eq he
  rcases le_or_gt (target m e) e' with hspare | hsmall
  · obtain ⟨k, hk⟩ := Int.le.dest hspare
    have hbound : m ≤ m' * 2 ^ k * 2 ^ excess m e := by
      rw [← value_le_value_iff (e := e), value_mul_pow, ← hexp, value_mul_pow, hk]
      exact hle
    rw [← hk, ← value_mul_pow]
    exact value_le_value (roundedMantissa_le hbound) _
  · rcases full_or_least he with hfull | hleast
    · refine absurd ?_ (not_lt.2 hle)
      calc
        value m' e' < value (m / 2 ^ excess m e) (target m e) := h.value_lt hfull hsmall
        _ = value (m / 2 ^ excess m e * 2 ^ excess m e) e := by rw [hexp, value_mul_pow]
        _ ≤ value m e := value_le_value (Nat.div_mul_le_self ..) e
    · have := h.least
      omega

/-- The result of rounding by cases. -/
theorem roundWithAccuracy_eq (he : e ≤ target m e) :
    roundWithAccuracy Format.binary64 .positive m e .exact =
      if hzero : rounded m e = 0 then .zero .positive
      else if rounded m e < 2 ^ 53 then
        .finite .positive (rounded m e) (target m e) (Nat.pos_of_ne_zero hzero)
      else .finite .positive (2 ^ 52) (target m e + 1) (by decide) := by
  have hshift : shiftToTargetExponent Format.binary64 m e .exact =
      ((⟨m, false, false⟩ : ExtendedMantissa) >>> excess m e, target m e) := by
    rw [shiftToTargetExponent, targetExponent_eq, ← target, shiftToExponent, ← excess,
      ← target_eq he]
    rfl
  have hleast : -1074 ≤ target m e := le_max_right ..
  rw [roundWithAccuracy, hshift]
  dsimp only
  rw [← rounded]
  by_cases hshort : rounded m e < 2 ^ 53
  · rw [shift_short hshort hleast]
    simp only [hshort, ↓reduceIte]
  · have hcarry : rounded m e = 2 ^ 53 := Nat.le_antisymm rounded_le (Nat.not_lt.1 hshort)
    rw [hcarry, shift_carry hleast]
    rfl

/-- **Rounding.** The result is a stored number, if its exponent is not too great for that, and no
more than any stored number from there on. -/
theorem rounds_roundWithAccuracy (he : e ≤ target m e) :
    Rounds (value m e) (roundWithAccuracy Format.binary64 .positive m e .exact) := by
  have hleast : -1074 ≤ target m e := le_max_right ..
  rw [roundWithAccuracy_eq he]
  split_ifs with hzero hshort
  · refine ⟨.zero _, fun {m' e'} _ _ _ => ?_⟩
    have : 0 ≤ value m' e' := by
      rw [value]
      positivity
    exact this
  · have hcanonical : Canonical (rounded m e) (target m e) := by
      refine ⟨Nat.pos_of_ne_zero hzero, hshort, hleast, ?_⟩
      apply (full_or_least he).imp_left
      intro hfull
      rw [← mantissa_shift] at hfull
      exact hfull.trans (le_roundedMantissa _)
    exact ⟨.finite hcanonical, fun h _ hle => value_rounded_le he h hle⟩
  · have hcanonical : Canonical (2 ^ 52) (target m e + 1) :=
      ⟨by decide, by decide, by omega, .inl le_rfl⟩
    refine ⟨.finite hcanonical, fun {m' e'} h _ hle => ?_⟩
    calc
      value (2 ^ 52) (target m e + 1) = value (2 ^ 53) (target m e) :=
        (value_mul_pow (2 ^ 52) 1 _).symm
      _ ≤ value (rounded m e) (target m e) := value_le_value (Nat.not_lt.1 hshort) _
      _ ≤ value m' e' := value_rounded_le he h hle

end

end SyntaxDiagram.Binary64
