import Mathlib
import SyntaxDiagram.Proofs.Descriptions.Rounding

/-!
# The number of a branch

A branch is chosen by a number of 64 bits. The number has to be whole and below the number of
branches, which is rounded for the comparison; what is read from it is below the number of branches
as it is.

* `Binary64.Rounds.pack`, `Binary64.Rounds.mul_one`, `Binary64.rounds_ofNat`: the steps by which a
  count is rounded.
* `Binary64.lt_iff_not_le`: numbers compare one way or the other, if there is no exception.
* `Binary64.value_lt_of_not_le_ofNat`: what is below a rounded count is below the count.
* `IsIndex`: a number names a branch. `validateNormal_decides` says that this is what is checked,
  and that the branch is there.
-/

namespace SyntaxDiagram

namespace Binary64

open Float.Model
open Float.Model.UnpackedFloat

/-! ## Packing -/

theorem toNat_implicit (m : BitVec 52) : (1#1 ++ m).toNat = 2 ^ 52 + m.toNat := by
  rw [BitVec.toNat_append, ← Nat.shiftLeft_add_eq_or_of_lt m.isLt]
  rfl

theorem exponentBias_eq : (Format.binary64.exponentBias : Int) = 1023 := rfl

/-- A full mantissa and an exponent that fits are read back. -/
theorem unpack_normal (s : Sign) {m b : Nat} (hfull : 2 ^ 52 ≤ m) (hshort : m < 2 ^ 53)
    (hpos : 0 < b) (hfits : b < 2047) :
    UnpackedFloat.unpack Format.binary64
        (packComponents Format.binary64 s (BitVec.ofNat 11 b) (BitVec.ofNat 52 m)) =
      .finite s m (b - 1075) (Nat.zero_lt_of_lt hfull) := by
  have hexp : (BitVec.ofNat 11 b).toNat = b := by
    rw [BitVec.toNat_ofNat]
    omega
  have hmantissa : (1#1 ++ BitVec.ofNat 52 m).toNat = m := by
    rw [toNat_implicit, BitVec.toNat_ofNat]
    omega
  have hzero : BitVec.ofNat 11 b ≠ 0#11 := by
    intro heq
    have hb := congrArg BitVec.toNat heq
    rw [hexp, BitVec.toNat_zero] at hb
    omega
  have hones : BitVec.ofNat 11 b ≠ -1#11 := by
    intro heq
    have hb : b = 2047 := hexp.symm.trans (congrArg BitVec.toNat heq)
    omega
  simp only [UnpackedFloat.unpack, unpackExponent_packComponents, unpackMantissa_packComponents,
    unpackSign_packComponents, Sign.ofBitVec_toBitVec, hexp, hmantissa, hzero, hones, if_false]
  congr 1

/-- A mantissa that is not full is read back with the least exponent. -/
theorem unpack_subnormal (s : Sign) {m : Nat} (hpos : 0 < m) (hshort : m < 2 ^ 52) :
    UnpackedFloat.unpack Format.binary64
        (packComponents Format.binary64 s 0#11 (BitVec.ofNat 52 m)) =
      .finite s m (-1074) hpos := by
  have hmantissa : (BitVec.ofNat 52 m).toNat = m := by
    rw [BitVec.toNat_ofNat]
    omega
  have hzero : BitVec.ofNat 52 m ≠ 0#52 := by
    intro heq
    have hm := congrArg BitVec.toNat heq
    rw [hmantissa, BitVec.toNat_zero] at hm
    omega
  have hones : 0#11 ≠ -1#11 := by decide
  simp only [UnpackedFloat.unpack, unpackExponent_packComponents, unpackMantissa_packComponents,
    unpackSign_packComponents, Sign.ofBitVec_toBitVec, hmantissa, hzero, hones, if_false, if_true,
    dite_false]
  congr 1

/-- Packing keeps a number whose exponent is not too great, and makes any other infinite. -/
theorem unpack_pack_finite (s : Sign) {m : Nat} {e : Int} (h : Canonical m e) :
    (Float.Model.pack (.finite s m e h.pos)).unpack =
      if e ≤ 971 then .finite s m e h.pos else .infinity s := by
  have hleast := h.least
  obtain ⟨b, hb⟩ : ∃ b : Nat, (b : Int) = e + 1075 := ⟨(e + 1075).toNat, by omega⟩
  have hbiased : (e + (Format.binary64.exponentBias : Int) + (52 : Nat)).toNat = b := by
    rw [exponentBias_eq]
    omega
  have hunpack : (Float.Model.pack (.finite s m e h.pos)).unpack =
      UnpackedFloat.unpack Format.binary64
        (UnpackedFloat.pack Format.binary64 (.finite s m e h.pos)) := rfl
  have hbits : 2 ^ Format.binary64.exponentBits = 2048 := rfl
  rw [hunpack, UnpackedFloat.pack]
  dsimp only
  rw [hbiased, hbits]
  by_cases he : e ≤ 971
  · rw [if_pos he, if_neg (by omega)]
    by_cases hfull : 2 ^ 52 ≤ m
    · have hlog : m.log2 = 52 := (Nat.log2_eq_iff h.pos.ne').2 ⟨hfull, h.short⟩
      have hnormal : m.log2 + 1 = Format.binary64.mantissaBits := congrArg (· + 1) hlog
      rw [if_pos hnormal, unpack_normal s hfull h.short (by omega) (by omega)]
      congr 1
      omega
    · have hexp : e = -1074 := h.full.resolve_left hfull
      have hlog : m.log2 < 52 := (Nat.log2_lt h.pos.ne').2 (Nat.not_le.1 hfull)
      have hnormal : m.log2 + 1 ≠ Format.binary64.mantissaBits := by
        have hmantissa : Format.binary64.mantissaBits = 53 := rfl
        omega
      subst hexp
      rw [if_neg hnormal, unpack_subnormal s h.pos (Nat.not_le.1 hfull)]
  · rw [if_neg he, if_pos (by omega)]
    simp [UnpackedFloat.unpack, packedInfinity]

theorem Rounds.pack {v : Rat} {u : UnpackedFloat} (h : Rounds v u) :
    Rounds v (Float.Model.pack u).unpack := by
  have hatMost {m : Nat} {e : Int} := h.atMost (m := m) (e := e)
  rcases h.stored with s | hcanonical | _
  · have hkeep : (Float.Model.pack (.zero s)).unpack = .zero s := unpack_packedZero
    rwa [hkeep]
  · rename_i m e
    rw [unpack_pack_finite .positive hcanonical]
    split_ifs with he
    · exact h
    · -- a number that is too great is no bound for what it stands for
      refine ⟨.infinity, fun {m' e'} hcanonical' he' hle => ?_⟩
      have hbelow : value m e ≤ value m' e' := hatMost hcanonical' he' hle
      rcases hcanonical.order hcanonical' hbelow with hlt | ⟨heq, -⟩ <;> omega
  · have hkeep : (Float.Model.pack (.infinity .positive)).unpack = .infinity .positive := by
      rfl
    rwa [hkeep]

/-! ## Counts -/

theorem log2_add_le {m : Nat} (hm : 0 < m) (k : Nat) : m.log2 + k ≤ (m * 2 ^ k).log2 := by
  rw [Nat.le_log2 (Nat.mul_pos hm (Nat.two_pow_pos k)).ne', Nat.pow_add]
  exact Nat.mul_le_mul_right _ (Nat.log2_self_le hm.ne')

/-- Bits that are added behind the point are no loss if the point is low enough then. -/
theorem rounds_shifted {m : Nat} (hm : 0 < m) {e : Int} (k : Nat) (hk : e - k ≤ target m e) :
    Rounds (value m e)
      (roundWithAccuracy Format.binary64 .positive (m * 2 ^ k) (e - k) .exact) := by
  have hlog := log2_add_le hm k
  have hshift : e - k ≤ target (m * 2 ^ k) (e - k) := by
    rw [target] at hk ⊢
    omega
  have hvalue : value (m * 2 ^ k) (e - k) = value m e := by
    rw [value_mul_pow, Int.sub_add_cancel]
  rw [← hvalue]
  exact rounds_roundWithAccuracy hshift

theorem rounds_round {m : Nat} (hm : 0 < m) (e : Int) :
    Rounds (value m e) (UnpackedFloat.round Format.binary64 .positive m e) := by
  have hrounds := rounds_shifted hm (e := e) (e - target m e).toNat (by omega)
  rwa [← Nat.shiftLeft_eq, target, ← targetExponent_eq] at hrounds

/-- Multiplication by one rounds a rounded number. -/
theorem Rounds.mul_one {v : Rat} {u : UnpackedFloat} (h : Rounds v u) :
    Rounds v
      (UnpackedFloat.mul Format.binary64 u (.finite .positive (2 ^ 52) (-52) (by decide))) := by
  have hatMost {m : Nat} {e : Int} := h.atMost (m := m) (e := e)
  rcases h.stored with s | hcanonical | _
  · exact ⟨.zero _, hatMost⟩
  · rename_i m e
    have hlow : e - (52 : Nat) ≤ target m e := by
      rw [target]
      omega
    have hrounds := rounds_shifted hcanonical.pos 52 hlow
    exact ⟨hrounds.stored, fun hc he hle => hrounds.atMost hc he (hatMost hc he hle)⟩
  · exact ⟨.infinity, hatMost⟩

theorem rounds_zero : Rounds 0 (.zero .positive) := by
  refine ⟨.zero _, fun {m e} _ _ hle => ?_⟩
  exact hle

/-- A whole number that fits into a mantissa. -/
theorem rounds_toFloat {n : Nat} (hn : n < 2 ^ 53) :
    Rounds n n.toUInt64.toFloat.toModel.unpack := by
  have hfits : n.toUInt64.toNat = n := by
    rw [Nat.toUInt64, UInt64.toNat_ofNat']
    omega
  have hpack : n.toUInt64.toFloat.toModel.unpack =
      (Float.Model.pack (UnpackedFloat.ofNat Format.binary64 n.toUInt64.toNat)).unpack := rfl
  rw [hpack, hfits]
  apply Rounds.pack
  rcases Nat.eq_zero_or_pos n with rfl | hpos
  · exact rounds_zero
  · have hround : UnpackedFloat.ofNat Format.binary64 n =
        UnpackedFloat.round Format.binary64 .positive n 0 := by
      have hcompare : compare (n : Int) 0 = .gt := by
        rw [Int.compare_eq_gt]
        exact Int.natCast_pos.2 hpos
      rw [UnpackedFloat.ofNat, UnpackedFloat.ofInt, UnpackedFloat.normalize, hcompare]
      rfl
    rw [hround, ← value_zero]
    exact rounds_round hpos 0

/-- A whole number that does not fit into a mantissa. -/
theorem rounds_ofScientific {n : Nat} (hn : 0 < n) :
    Rounds n (Float.Model.ofScientific n 0).unpack := by
  have hmul : UnpackedFloat.ofScientific Format.binary64 n 0 =
      roundWithAccuracy Format.binary64 .positive (n * 2 ^ 53) (0 - (53 : Nat)) .exact := by
    rw [UnpackedFloat.ofScientific, dif_neg hn.ne', if_neg (by decide), if_neg (by simp),
      if_pos le_rfl]
    rw [UnpackedFloat.mul, Nat.shiftLeft_eq, Int.toNat_zero, Nat.pow_zero, Nat.mul_one]
    rfl
  have hlow : (0 : Int) - (53 : Nat) ≤ target n 0 := by
    rw [target]
    omega
  have hpack : (Float.Model.ofScientific n 0).unpack =
      (Float.Model.pack (UnpackedFloat.ofScientific Format.binary64 n 0)).unpack := rfl
  rw [hpack, hmul, ← value_zero]
  exact (rounds_shifted hn 53 hlow).pack

/-- **A count is rounded**, by whichever way it becomes a number with a point. -/
theorem rounds_ofNat (n : Nat) : Rounds n (Float.ofNat n).toModel.unpack := by
  have hscientific : Float.ofNat n = Float.ofScientific n false 0 := rfl
  rw [hscientific, Float.ofScientific]
  by_cases hshort : n < 2 ^ 53
  · rw [dif_pos ⟨hshort, by decide⟩]
    have hone : (Float.ofBits 0x3FF0000000000000).toModel.unpack =
        .finite .positive (2 ^ 52) (-52) (by decide) := by
      rfl
    have hrounds := (rounds_toFloat hshort).mul_one.pack
    rw [← hone] at hrounds
    exact hrounds
  · rw [dif_neg (not_and_of_not_left _ hshort)]
    exact rounds_ofScientific (by omega)

/-! ## Comparisons -/

theorem Stored.ne_notANumber {u : UnpackedFloat} (h : Stored u) : u ≠ .notANumber := by
  rintro rfl
  cases h

theorem ne_notANumber_of_isFinite {x : Float} (h : x.isFinite) :
    x.toModel.unpack ≠ .notANumber := by
  intro hnan
  have hfinite : x.toModel.unpack.isFinite := h
  rw [hnan] at hfinite
  exact Bool.false_ne_true hfinite

theorem compare_swap (a b : UnpackedFloat) :
    (UnpackedFloat.compare a b).map Ordering.swap = UnpackedFloat.compare b a := by
  rcases a with sa | _ | sa | ⟨sa, ma, ea, ha⟩ <;> rcases b with sb | _ | sb | ⟨sb, mb, eb, hb⟩ <;>
    (try cases sa) <;> (try cases sb) <;>
    first
    | rfl
    | simp [UnpackedFloat.compare, Ordering.swap_then, Int.compare_swap, Nat.compare_swap]

theorem compare_ne_none {a b : UnpackedFloat} (ha : a ≠ .notANumber) (hb : b ≠ .notANumber) :
    UnpackedFloat.compare a b ≠ none := by
  rcases a with sa | _ | sa | ⟨sa, ma, ea, ha'⟩ <;>
    rcases b with sb | _ | sb | ⟨sb, mb, eb, hb'⟩ <;>
    (try cases sa) <;> (try cases sb) <;> simp_all [UnpackedFloat.compare]

theorem lt_iff {x y : Float} : x < y ↔ x.toModel.unpack.lt y.toModel.unpack :=
  decide_eq_true_iff

theorem le_iff {x y : Float} : x ≤ y ↔ x.toModel.unpack.le y.toModel.unpack :=
  decide_eq_true_iff

/-- Two numbers compare one way or the other. -/
theorem lt_iff_not_le {x y : Float} (hx : x.toModel.unpack ≠ .notANumber)
    (hy : y.toModel.unpack ≠ .notANumber) : x < y ↔ ¬ y ≤ x := by
  rw [lt_iff, le_iff, UnpackedFloat.lt, UnpackedFloat.le, ← compare_swap x.toModel.unpack]
  obtain ⟨o, ho⟩ := Option.ne_none_iff_exists'.1 (compare_ne_none hx hy)
  rw [ho]
  cases o <;> simp

/-- Every number is stored in the form of stored numbers, its sign apart. -/
theorem canonical_unpack {x : Float.Model} {s : Sign} {m : Nat} {e : Int} {hm : 0 < m}
    (h : x.unpack = .finite s m e hm) : Canonical m e ∧ e ≤ 971 := by
  rw [Float.Model.unpack, UnpackedFloat.unpack] at h
  dsimp only at h
  have hmantissa : (@unpackMantissa Format.binary64 x.toBits.toBitVec).toNat < 2 ^ 52 :=
    BitVec.isLt _
  have hexponent : (@unpackExponent Format.binary64 x.toBits.toBitVec).toNat < 2 ^ 11 :=
    BitVec.isLt _
  rw [exponentBias_eq] at h
  split_ifs at h with hones hzero hleast hzero
  · obtain ⟨-, rfl, rfl⟩ := UnpackedFloat.finite.inj h
    rw [hleast]
    exact ⟨⟨hm, by omega, le_rfl, .inr rfl⟩, by decide⟩
  · obtain ⟨-, rfl, rfl⟩ := UnpackedFloat.finite.inj h
    have hpos : (@unpackExponent Format.binary64 x.toBits.toBitVec).toNat ≠ 0 :=
      fun heq => hleast (BitVec.eq_of_toNat_eq heq)
    have hfits : (@unpackExponent Format.binary64 x.toBits.toBitVec).toNat ≠ 2047 :=
      fun heq => hones (BitVec.eq_of_toNat_eq heq)
    have hfull := toNat_implicit (@unpackMantissa Format.binary64 x.toBits.toBitVec)
    refine ⟨⟨hm, ?_, ?_, .inl ?_⟩, ?_⟩ <;> omega

/-! ## The number below a rounded count -/

/-- Stored numbers compare as what they stand for. -/
theorem le_of_atMost {u : UnpackedFloat} {m : Nat} {e : Int} (hu : Stored u) (h : Canonical m e)
    (hle : AtMost (value m e) u) : u.le (.finite .positive m e h.pos) := by
  rcases hu with s | hstored | _
  · rfl
  · rename_i m' e'
    rw [UnpackedFloat.le, UnpackedFloat.compare, Option.any_some, Ordering.isLE_then_iff_and]
    rcases hstored.order h hle with hlt | ⟨rfl, hmantissa⟩
    · rw [Int.compare_eq_lt.2 hlt]
      exact ⟨rfl, .inl rfl⟩
    · rw [Int.compare_eq_eq.2 rfl, Nat.isLE_compare]
      exact ⟨rfl, .inr hmantissa⟩
  · exact hle.elim

/-- **A number below a rounded count is below the count.** Otherwise the rounded count could not be
greater. -/
theorem value_lt_of_not_le_ofNat {x : Float} {n m : Nat} {e : Int} {hm : 0 < m}
    (hx : x.toModel.unpack = .finite .positive m e hm) (h : ¬ Float.ofNat n ≤ x) :
    value m e < n := by
  obtain ⟨hcanonical, he⟩ := canonical_unpack hx
  have hrounds := rounds_ofNat n
  by_contra hge
  have hle := le_of_atMost hrounds.stored hcanonical (hrounds.atMost hcanonical he (not_lt.1 hge))
  exact h (le_iff.2 (hx ▸ hle))

/-! ## Whole numbers -/

/-- Rounding towards zero does not make a number greater. -/
theorem toNat_roundToInt_le (m : Nat) (e : Int) :
    ((roundToInt .positive m e).toNat : Rat) ≤ value m e := by
  rw [← value_zero]
  rcases le_total 0 e with hwhole | hpoint
  · obtain ⟨k, rfl⟩ := Int.eq_ofNat_of_zero_le hwhole
    have hround : (roundToInt .positive m k).toNat = m * 2 ^ k := by
      rw [roundToInt, decreaseExponent, Int.sub_zero, Int.toNat_natCast, sub_self, Nat.shiftLeft_eq]
      rfl
    rw [hround, value_mul_pow, zero_add]
  · obtain ⟨k, rfl⟩ := Int.exists_eq_neg_ofNat hpoint
    have hround : (roundToInt .positive m (-k)).toNat = m / 2 ^ k := by
      have hkeep : (-(k : Int) - 0).toNat = 0 := by omega
      have hdrop : (0 - (-(k : Int) - (0 : Nat))).toNat = k := by omega
      simp only [roundToInt, decreaseExponent, hkeep, shiftToExponent, hdrop]
      exact mantissa_shift m k
    calc
      value (roundToInt .positive m (-k)).toNat 0 = value (m / 2 ^ k * 2 ^ k) (-k) := by
        rw [hround, value_mul_pow, neg_add_cancel]
      _ ≤ value m (-k) := value_le_value (Nat.div_mul_le_self ..) _

theorem toNat_ofNatClamp_le (n : Nat) : (UInt64.ofNatClamp n).toNat ≤ n := by
  rw [UInt64.ofNatClamp]
  split_ifs with hfits
  · exact le_rfl
  · have hlast : UInt64.size - 1 ≤ n := by omega
    exact hlast

/-- **A number below a rounded count is rounded to a number below the count**, when it is rounded
towards zero. -/
theorem toNat_toUInt64_lt {x : Float} {n : Nat} (hx : x.isFinite) (hpos : ¬ x < 0)
    (hlt : ¬ Float.ofNat n ≤ x) : x.toUInt64.toNat < n := by
  refine (toNat_ofNatClamp_le _).trans_lt ?_
  have hn : 0 < n := by
    by_contra hzero
    obtain rfl : n = 0 := by omega
    have hnan := (rounds_ofNat 0).stored.ne_notANumber
    exact hpos ((lt_iff_not_le (ne_notANumber_of_isFinite hx) hnan).2 hlt)
  have hfinite : x.toModel.unpack.isFinite := hx
  cases hu : x.toModel.unpack with
  | notANumber | infinity =>
    rw [hu] at hfinite
    exact absurd hfinite Bool.false_ne_true
  | zero s => exact hn
  | finite s m e hm =>
    cases s with
    | negative =>
      rw [UnpackedFloat.toInt, roundToInt]
      dsimp only [Sign.apply]
      rw [Int.toNat_neg_natCast]
      exact hn
    | positive =>
      have hround := (toNat_roundToInt_le m e).trans_lt (value_lt_of_not_le_ofNat hu hlt)
      exact Nat.cast_lt.1 hround

end Binary64

/-! ## Branches -/

/-- A number names one of several branches: it is finite and whole, and in the range from zero up to
their number. -/
structure IsIndex (normal : Float) (count : Nat) : Prop where
  finite : normal.isFinite
  whole : normal.floor == normal
  nonneg : 0 ≤ normal
  below : normal < Float.ofNat count

theorem isIndex_iff {normal : Float} {count : Nat} :
    IsIndex normal count ↔
      (normal.isFinite ∧ normal.floor == normal) ∧ ¬ normal < 0 ∧ ¬ Float.ofNat count ≤ normal := by
  have hcount := (Binary64.rounds_ofNat count).stored.ne_notANumber
  have hzero : (0 : Float).toModel.unpack ≠ .notANumber :=
    (Binary64.rounds_ofNat 0).stored.ne_notANumber
  constructor
  · rintro ⟨hfinite, hwhole, hnonneg, hbelow⟩
    have hnormal := Binary64.ne_notANumber_of_isFinite hfinite
    refine ⟨⟨hfinite, hwhole⟩, ?_, (Binary64.lt_iff_not_le hnormal hcount).1 hbelow⟩
    rw [Binary64.lt_iff_not_le hnormal hzero, not_not]
    exact hnonneg
  · rintro ⟨⟨hfinite, hwhole⟩, hnonneg, hbelow⟩
    have hnormal := Binary64.ne_notANumber_of_isFinite hfinite
    rw [Binary64.lt_iff_not_le hnormal hzero, not_not] at hnonneg
    exact ⟨hfinite, hwhole, hnonneg, (Binary64.lt_iff_not_le hnormal hcount).2 hbelow⟩

/-- **The check of a straight branch** passes exactly the numbers that name a branch. -/
theorem validateNormal_eq_ok_iff {normal : Float} {count k : Nat} :
    validateNormal normal count = .ok k ↔
      IsIndex normal count ∧ normal.toUInt64.toNat = k := by
  rw [validateNormal, isIndex_iff]
  split_ifs with hwhole hrange
  · simp only [bne, Bool.or_eq_true, Bool.not_eq_true'] at hwhole
    constructor
    · exact nofun
    · rintro ⟨⟨⟨hfinite, hfloor⟩, -⟩, -⟩
      rw [hfinite, hfloor] at hwhole
      exact absurd hwhole (by decide)
  · simp only [Bool.or_eq_true, decide_eq_true_eq] at hrange
    constructor
    · exact nofun
    · rintro ⟨⟨-, hnonneg, hbelow⟩, -⟩
      exact absurd hrange (not_or.2 ⟨hnonneg, hbelow⟩)
  · simp only [bne, Bool.or_eq_true, Bool.not_eq_true', not_or, Bool.not_eq_false] at hwhole
    simp only [Bool.or_eq_true, decide_eq_true_eq, not_or] at hrange
    rw [Except.ok.injEq, and_iff_right ⟨hwhole, hrange⟩]

/-- The branch that is read from a number is one of those that there are. -/
theorem lt_of_validateNormal {normal : Float} {count k : Nat}
    (h : validateNormal normal count = .ok k) : k < count := by
  obtain ⟨hindex, rfl⟩ := validateNormal_eq_ok_iff.1 h
  obtain ⟨⟨hfinite, -⟩, hnonneg, hbelow⟩ := isIndex_iff.1 hindex
  exact Binary64.toNat_toUInt64_lt hfinite hnonneg hbelow

end SyntaxDiagram
