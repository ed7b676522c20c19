import SyntaxDiagram.Path
import SyntaxDiagram.Decimal.Notation
import SyntaxDiagram.Proofs.Descriptions.Indices
import SyntaxDiagram.Proofs.PathData.Grammar

/-!
# Numbers in path data

Every finite number is written as a number of path data, and without a sign if it is not negative.

* `Decimal.isMagnitude_writeDigits`: digits are written as a number, with or without an exponent.
* `Decimal.isNumber_write`, `Decimal.isMagnitude_write`: the same for what has them.
* `Binary64.IsLength`: a finite number that is not negative.
* `Binary64.isLength_longSide`, `Binary64.isLength_shortSide`: the sides of an eighth of a circle are
  lengths if the radius is, however they are rounded.
-/

namespace SyntaxDiagram

open PathData

/-! ## Digits -/

namespace Decimal

theorem areDigits_toDigits (n : Nat) : AreDigits (Nat.toDigits 10 n) :=
  ⟨Nat.toDigits_ne_nil, fun _ hc => Nat.isDigit_of_mem_toDigits (by decide) (by decide) hc⟩

theorem isDecimal_pointed {digits : List Char} (h : AreDigits digits) :
    IsDecimal (pointed digits) := by
  obtain ⟨hne, hdigits⟩ := h
  match digits with
  | [] => exact absurd rfl hne
  | [d] => exact .whole ⟨hne, hdigits⟩
  | d :: e :: rest =>
    rw [List.forall_mem_cons] at hdigits
    have hfront : ∀ c ∈ [d], c.isDigit := List.forall_mem_singleton.2 hdigits.1
    exact .point hfront ⟨List.cons_ne_nil e rest, hdigits.2⟩

theorem isMagnitude_scientific {digits : List Char} (h : AreDigits digits) (order : Int) :
    IsMagnitude (scientific digits order) := by
  refine .intro (isDecimal_pointed h) (.signed (.inl rfl) ?_ (areDigits_toDigits _))
  split
  · exact .inr rfl
  · exact .inl rfl

theorem isDecimal_positional {digits : List Char} (h : AreDigits digits) (order : Int) :
    IsDecimal (positional false digits order) := by
  obtain ⟨hne, hdigits⟩ := h
  have hzeros (n : Nat) : ∀ c ∈ List.replicate n '0', c.isDigit := by
    intro c hc
    rw [List.eq_of_mem_replicate hc]
    decide
  rw [positional]
  split
  · have hfront : ∀ c ∈ ['0'], c.isDigit := hzeros 1
    exact .point hfront ⟨List.append_ne_nil_of_right_ne_nil _ hne,
      List.forall_mem_append.2 ⟨hzeros _, hdigits⟩⟩
  · dsimp only
    split
    · rw [if_neg Bool.false_ne_true, List.append_nil]
      exact .whole ⟨List.append_ne_nil_of_left_ne_nil hne _,
        List.forall_mem_append.2 ⟨hdigits, hzeros _⟩⟩
    · rename_i hlong
      refine .point (fun c hc => hdigits c (List.mem_of_mem_take hc))
        ⟨?_, fun c hc => hdigits c (List.mem_of_mem_drop hc)⟩
      rw [Ne, List.drop_eq_nil_iff]
      exact hlong

/-- **Digits are written as a number**, in either notation. -/
theorem isMagnitude_writeDigits (d : Digits) : IsMagnitude (svg.writeDigits d).toList := by
  rw [Style.writeDigits, String.toList_ofList]
  generalize (_ || _ : Bool) = withExponent
  cases withExponent with
  | true => exact isMagnitude_scientific (areDigits_toDigits _) _
  | false =>
    have h := IsMagnitude.intro
      (isDecimal_positional (areDigits_toDigits d.strip.digits)
        (d.strip.exponent + (Nat.toDigits 10 d.strip.digits).length - 1)) .none
    rwa [List.append_nil] at h

end Decimal

/-! ## Lengths -/

namespace Binary64

open Float.Model
open Float.Model.UnpackedFloat

/-- A finite number that is not negative. -/
structure IsLength (x : Float) : Prop where
  isFinite : x.isFinite
  nonneg : 0 ≤ x

instance (x : Float) : Decidable (IsLength x) :=
  decidable_of_iff (x.isFinite ∧ 0 ≤ x) ⟨fun h => ⟨h.1, h.2⟩, fun h => ⟨h.isFinite, h.nonneg⟩⟩

/-- What a length is stored as. -/
def IsSize : UnpackedFloat → Prop
  | .zero _ => True
  | .finite .positive _ _ _ => True
  | _ => False

theorem isLength_iff {x : Float} : IsLength x ↔ IsSize x.toModel.unpack := by
  have hzero : (0 : Float).toModel.unpack = .zero .positive := rfl
  have hparts : IsLength x ↔
      x.toModel.unpack.isFinite ∧ (UnpackedFloat.zero .positive).le x.toModel.unpack := by
    rw [← hzero, ← le_iff]
    exact ⟨fun h => ⟨h.isFinite, h.nonneg⟩, fun h => ⟨h.1, h.2⟩⟩
  rw [hparts]
  cases x.toModel.unpack with
  | notANumber | infinity => exact ⟨fun h => absurd h.1 Bool.false_ne_true, False.elim⟩
  | zero => exact ⟨fun _ => trivial, fun _ => ⟨rfl, rfl⟩⟩
  | finite s =>
    cases s with
    | positive => exact ⟨fun _ => trivial, fun _ => ⟨rfl, rfl⟩⟩
    | negative => exact ⟨fun h => absurd h.2 Bool.false_ne_true, False.elim⟩

theorem isSize_of_atMost {u : UnpackedFloat} {bound : Rat} (h : Stored u) (hle : AtMost bound u) :
    IsSize u := by
  cases h with
  | zero => trivial
  | finite => trivial
  | infinity => exact hle

theorem isSize_zero (s : Sign) : IsSize (Float.Model.pack (.zero s)).unpack := by
  rw [show (Float.Model.pack (.zero s)).unpack = .zero s from unpack_packedZero]
  trivial

/-- The negative of a number is as finite as the number. -/
theorem isFinite_neg {x : Float} (h : x.isFinite) : (-x).isFinite := by
  have hx : x.toModel.unpack.isFinite := h
  have hneg : (-x).toModel.unpack = (Float.Model.pack x.toModel.unpack.neg).unpack := rfl
  change (-x).toModel.unpack.isFinite
  rw [hneg]
  cases hu : x.toModel.unpack with
  | notANumber | infinity =>
    rw [hu] at hx
    exact absurd hx Bool.false_ne_true
  | zero s =>
    have hkeep : (Float.Model.pack (.zero (-s))).unpack = .zero (-s) := unpack_packedZero
    rw [UnpackedFloat.neg, hkeep]
    rfl
  | finite s m e hm =>
    obtain ⟨hcanonical, he⟩ := canonical_unpack hu
    rw [UnpackedFloat.neg, unpack_pack_finite (-s) hcanonical, if_pos he]
    rfl

/-- The larger of two finite numbers is one of them. -/
theorem isFinite_clamp {x : Float} (h : x.isFinite) : (Scalar.clamp x).isFinite := by
  change (Scalar.floatMax x (Float.ofNat 0)).isFinite
  rw [Scalar.floatMax]
  split
  · rfl
  · exact h

/-- The long side of an eighth of a circle is no longer than the radius. -/
theorem atMost_longSide {r : Float} {m : Nat} {e : Int} {hm : 0 < m}
    (h : r.toModel.unpack = .finite .positive m e hm) :
    Stored (Command.longSide r).toModel.unpack ∧
      AtMost (value m e) (Command.longSide r).toModel.unpack := by
  obtain ⟨hcanonical, he⟩ := canonical_unpack h
  have hsine : (Scalar.sin45 : Float).toModel.unpack =
      .finite .positive 6369051672525772 (-53) (by decide) := rfl
  have hmul : (Command.longSide r).toModel.unpack = (Float.Model.pack
      (UnpackedFloat.mul Format.binary64 r.toModel.unpack
        (Scalar.sin45 : Float).toModel.unpack)).unpack := rfl
  have hlow : e + -53 ≤ target (m * 6369051672525772) (e + -53) := by
    have hlog : 52 ≤ (m * 6369051672525772).log2 := by
      rw [Nat.le_log2 (Nat.mul_pos hm (by decide)).ne']
      calc
        2 ^ 52 ≤ 1 * 6369051672525772 := by decide
        _ ≤ m * 6369051672525772 := Nat.mul_le_mul_right _ hm
    rw [target]
    omega
  have hvalue : value (m * 6369051672525772) (e + -53) ≤ value m e := by
    calc
      value (m * 6369051672525772) (e + -53) ≤ value (m * 2 ^ 53) (e + -53) :=
        value_le_value (Nat.mul_le_mul_left _ (by decide)) _
      _ = value m e := by
        rw [value_mul_pow]
        congr 1
        omega
  have hrounds := (rounds_roundWithAccuracy hlow).pack
  rw [hmul, h, hsine]
  exact ⟨hrounds.stored, hrounds.atMost hcanonical he hvalue⟩

/-- An arc without a radius has no sides. -/
theorem longSide_zero {r : Float} {s : Sign} (h : r.toModel.unpack = .zero s) :
    (Command.longSide r).toModel.unpack = .zero (s * .positive) := by
  have hmul : (Command.longSide r).toModel.unpack = (Float.Model.pack
      (UnpackedFloat.mul Format.binary64 r.toModel.unpack
        (Scalar.sin45 : Float).toModel.unpack)).unpack := rfl
  rw [hmul, h]
  exact unpack_packedZero

theorem isLength_longSide {r : Float} (h : IsLength r) : IsLength (Command.longSide r) := by
  rw [isLength_iff] at h ⊢
  match hu : r.toModel.unpack with
  | .notANumber | .infinity _ | .finite .negative _ _ _ =>
    rw [hu] at h
    exact h.elim
  | .zero s =>
    rw [longSide_zero hu]
    trivial
  | .finite .positive m e hm =>
    obtain ⟨hstored, hatMost⟩ := atMost_longSide hu
    exact isSize_of_atMost hstored hatMost

/-- What is left of a number at the smaller exponent, to which both are brought first. -/
theorem sub_eq_normalize {m m' rest k k' : Nat} {e e' least : Int} (hm : 0 < m) (hm' : 0 < m')
    (hleast : min e e' = least) (hk : least + k = e) (hk' : least + k' = e')
    (hrest : m' * 2 ^ k' + rest = m * 2 ^ k) :
    UnpackedFloat.sub Format.binary64 (.finite .positive m e hm) (.finite .positive m' e' hm') =
      UnpackedFloat.normalize Format.binary64 (rest : Int) least .positive := by
  have hshift : (e - least).toNat = k := by omega
  have hshift' : (e' - least).toNat = k' := by omega
  simp only [UnpackedFloat.sub, decreaseExponent, hleast, hshift, hshift', Nat.shiftLeft_eq,
    Sign.apply]
  congr 1
  omega

/-- What is left of a number without a part of it is a length. -/
theorem isLength_sub {x y : Float} {m : Nat} {e : Int} {hm : 0 < m}
    (hx : x.toModel.unpack = .finite .positive m e hm) (hy : Stored y.toModel.unpack)
    (hle : AtMost (value m e) y.toModel.unpack) : IsLength (x - y) := by
  obtain ⟨hcanonical, he⟩ := canonical_unpack hx
  have hsub : (x - y).toModel.unpack = (Float.Model.pack (UnpackedFloat.sub Format.binary64
      x.toModel.unpack y.toModel.unpack)).unpack := rfl
  rw [isLength_iff, hsub, hx]
  generalize y.toModel.unpack = u at hy hle
  cases hy with
  | zero s =>
    rw [UnpackedFloat.sub, unpack_pack_finite .positive hcanonical, if_pos he]
    · trivial
    · exact nofun
    · exact nofun
    · exact nofun
  | infinity => exact hle.elim
  | @finite m' e' hcanonical' =>
    -- the shifts that bring both numbers to the smaller exponent
    obtain ⟨k, hk⟩ := Int.le.dest (min_le_left e e')
    obtain ⟨k', hk'⟩ := Int.le.dest (min_le_right e e')
    generalize hleast : min e e' = least at hk hk'
    have hbelow : m' * 2 ^ k' ≤ m * 2 ^ k := by
      rw [← value_le_value_iff (e := least), value_mul_pow, value_mul_pow, hk, hk']
      exact hle
    obtain ⟨rest, hrest⟩ := Nat.le.dest hbelow
    rw [sub_eq_normalize hm hcanonical'.pos hleast hk hk' hrest, UnpackedFloat.normalize]
    rcases Nat.eq_zero_or_pos rest with rfl | hpos
    · exact isSize_zero .positive
    · have hvalue : value rest least ≤ value m e := by
        rw [← hk, ← value_mul_pow]
        exact value_le_value (Nat.le.intro ((Nat.add_comm ..).trans hrest)) _
      have hrounds := (rounds_round hpos least).pack
      rw [Int.compare_eq_gt.2 (Int.natCast_pos.2 hpos)]
      exact isSize_of_atMost hrounds.stored (hrounds.atMost hcanonical he hvalue)

theorem isLength_shortSide {r : Float} (h : IsLength r) : IsLength (Command.shortSide r) := by
  have hsize := isLength_iff.1 h
  match hu : r.toModel.unpack with
  | .notANumber | .infinity _ | .finite .negative _ _ _ =>
    rw [hu] at hsize
    exact hsize.elim
  | .zero s =>
    have hsub : (Command.shortSide r).toModel.unpack = (Float.Model.pack
        (UnpackedFloat.sub Format.binary64 r.toModel.unpack
          (Command.longSide r).toModel.unpack)).unpack := rfl
    rw [isLength_iff, hsub, hu, longSide_zero hu, UnpackedFloat.sub]
    split
    · exact isSize_zero s
    · exact isSize_zero .positive
  | .finite .positive m e hm =>
    obtain ⟨hstored, hatMost⟩ := atMost_longSide hu
    exact isLength_sub hu hstored hatMost

/-! ## Bits -/

section

variable (b : BitVec 64)

theorem toNat_unpackSign : (@unpackSign Format.binary64 b).toNat = b.toNat / 2 ^ 63 % 2 := by
  rw [unpackSign, BitVec.toNat_cast, BitVec.extractLsb_toNat, Nat.shiftRight_eq_div_pow]
  rfl

theorem toNat_unpackExponent :
    (@unpackExponent Format.binary64 b).toNat = b.toNat / 2 ^ 52 % 2 ^ 11 := by
  rw [unpackExponent, BitVec.toNat_cast, BitVec.extractLsb_toNat, Nat.shiftRight_eq_div_pow]
  rfl

theorem toNat_unpackMantissa : (@unpackMantissa Format.binary64 b).toNat = b.toNat % 2 ^ 52 := by
  rw [unpackMantissa, BitVec.toNat_cast, BitVec.extractLsb_toNat, Nat.shiftRight_zero]
  rfl

end

theorem mantissa_eq_zero {x : Float} {s : Sign} (h : x.toModel.unpack = .zero s) :
    (Decimal.Binary.ofFloat x).mantissa = 0 := by
  rw [Float.Model.unpack, UnpackedFloat.unpack] at h
  dsimp only at h
  split_ifs at h with hones hinf hexponent hmantissa
  have hscale : x.toBits.toNat / Nat.pow 2 52 % Nat.pow 2 11 = 0 := by
    have hnat := congrArg BitVec.toNat hexponent
    rwa [toNat_unpackExponent] at hnat
  have hfraction : x.toBits.toNat % Nat.pow 2 52 = 0 := by
    have hnat := congrArg BitVec.toNat hmantissa
    rwa [toNat_unpackMantissa] at hnat
  rw [Decimal.Binary.ofFloat, if_pos hscale, hfraction]

theorem sign_ne_one {x : Float} {m : Nat} {e : Int} {hm : 0 < m}
    (h : x.toModel.unpack = .finite .positive m e hm) : ¬ x.toBits >>> 63 = 1 := by
  intro hone
  have hbit : x.toBits.toNat / 2 ^ 63 = 1 := by
    have hnat := congrArg UInt64.toNat hone
    rwa [UInt64.toNat_shiftRight, Nat.shiftRight_eq_div_pow] at hnat
  have hsign : @unpackSign Format.binary64 x.toModel.toBits.toBitVec = 1#1 := by
    apply BitVec.eq_of_toNat_eq
    rw [toNat_unpackSign]
    exact congrArg (· % 2) hbit
  rw [Float.Model.unpack, UnpackedFloat.unpack, hsign] at h
  split_ifs at h <;> exact Sign.noConfusion (UnpackedFloat.finite.inj h).1

end Binary64

/-! ## Written numbers -/

namespace Decimal

open Binary64

theorem isMagnitude_zero : IsMagnitude ['0'] :=
  .intro (.whole (areDigits_toDigits 0)) .none

/-- How a finite number is written: zero, or digits that may have a sign. -/
theorem toList_write {x : Float} (h : x.isFinite) :
    ∃ d, (svg.write x).toList =
      if (Binary.ofFloat x).mantissa = 0 then ['0']
      else (if x.toBits >>> 63 = 1 then ['-'] else []) ++ (svg.writeDigits d).toList := by
  have hkind : x.isNaN = false ∧ x.isInf = false := by
    have hfinite : x.toModel.unpack.isFinite := h
    change x.toModel.unpack.isNaN = false ∧ x.toModel.unpack.isInf = false
    cases hu : x.toModel.unpack with
    | notANumber | infinity =>
      rw [hu] at hfinite
      exact absurd hfinite Bool.false_ne_true
    | zero | finite => exact ⟨rfl, rfl⟩
  refine ⟨shortest svg.tie (Binary.ofFloat x), ?_⟩
  rw [Style.write, hkind.1, hkind.2]
  simp only [Bool.false_eq_true, if_false]
  split
  · split <;> rfl
  · split
    · rw [String.toList_append]
      rfl
    · rfl

/-- **Finite numbers are written as numbers.** -/
theorem isNumber_write {x : Float} (h : x.isFinite) : IsNumber (svg.write x).toList := by
  obtain ⟨d, hd⟩ := toList_write h
  rw [hd]
  split
  · exact .plain isMagnitude_zero
  · split
    · exact .signed (.inr rfl) (isMagnitude_writeDigits d)
    · exact .plain (isMagnitude_writeDigits d)

/-- **Lengths are written without a sign.** -/
theorem isMagnitude_write {x : Float} (h : IsLength x) : IsMagnitude (svg.write x).toList := by
  obtain ⟨d, hd⟩ := toList_write h.isFinite
  have hsize := isLength_iff.1 h
  rw [hd]
  match hu : x.toModel.unpack with
  | .notANumber | .infinity _ | .finite .negative _ _ _ =>
    rw [hu] at hsize
    exact hsize.elim
  | .zero s =>
    rw [if_pos (mantissa_eq_zero hu)]
    exact isMagnitude_zero
  | .finite .positive m e hm =>
    rw [if_neg (sign_ne_one hu)]
    split
    · exact isMagnitude_zero
    · exact isMagnitude_writeDigits d

end Decimal
end SyntaxDiagram
