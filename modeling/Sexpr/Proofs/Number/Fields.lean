import Mathlib
import Sexpr.Number.Written

/-!
# The fields of a double

A double is a sign, a scale and a fraction. Negation and the absolute value change the
sign only, a double is finite unless its scale is the largest one, and it is zero if scale
and fraction are.

> `exists_doubleOf`: every double is made of its fields.
> `neg_doubleOf`, `abs_doubleOf`, `isFinite_doubleOf`, `isSigned_doubleOf`,
> `beq_zero_doubleOf`: what is done with it, in terms of the fields.
-/

namespace Sexpr

open Float.Model (Format UnpackedFloat)
open Float.Model.UnpackedFloat

/-- The double with these three fields. -/
def doubleOf (s : Sign) (scale : BitVec 11) (fraction : BitVec 52) : Float :=
  Float.ofBits ⟨packComponents Format.binary64 s scale fraction⟩

/-- Every double is made of its fields. -/
theorem exists_doubleOf (x : Float) : ∃ s scale fraction, x = doubleOf s scale fraction := by
  refine ⟨.ofBitVec (@unpackSign Format.binary64 x.toBits.toBitVec),
    @unpackExponent Format.binary64 x.toBits.toBitVec,
    @unpackMantissa Format.binary64 x.toBits.toBitVec, ?_⟩
  unfold doubleOf
  rw [packComponents_unpackSign_unpackExponent_unpackMantissa]
  exact (Float.ofBits_toBits x).symm

/-- The value that three fields stand for. -/
def valueOf (s : Sign) (scale : BitVec 11) (fraction : BitVec 52) : UnpackedFloat :=
  if scale = -1#11 then
    if fraction = 0#52 then .infinity s else .notANumber
  else if scale = 0#11 then
    if h : fraction = 0#52 then .zero s
    else .finite s fraction.toNat (-1074)
      (by simpa [BitVec.toNat_pos, BitVec.pos_iff_ne_zero] using h)
  else .finite s (2 ^ 52 + fraction.toNat) (scale.toNat - 1075) (by omega)

variable {s : Sign} {scale : BitVec 11} {fraction : BitVec 52}

/-- Unpacking the bits gives what the fields stand for. -/
theorem unpack_packComponents :
    unpack Format.binary64 (packComponents Format.binary64 s scale fraction)
      = valueOf s scale fraction := by
  unfold unpack valueOf
  simp only [unpackExponent_packComponents, unpackMantissa_packComponents,
    unpackSign_packComponents, Sign.ofBitVec_toBitVec]
  split
  · rfl
  · split
    · next hscale =>
      subst hscale
      rfl
    · congr 1
      have hadd := Nat.two_pow_add_eq_or_of_lt fraction.isLt 1
      rw [BitVec.toNat_append, BitVec.toNat_ofNat, Nat.shiftLeft_eq, Nat.mul_comm]
      exact hadd.symm

/-- The same of the double. -/
theorem unpack_doubleOf :
    (doubleOf s scale fraction).toModel.unpack = valueOf s scale fraction := by
  show unpack Format.binary64 (pack Format.binary64 (unpack Format.binary64 _)) = _
  rw [pack_unpack, ← unpack_packComponents]
  split
  · next h =>
    -- of the patterns that are no number only one is kept
    rw [unpack_packedNaN]
    simp only [isNaNBits, decide_eq_true_eq] at h
    simp only [unpack, h, if_true, if_false]
  · rfl

/-- Negation changes the sign and nothing else. -/
theorem neg_doubleOf : -doubleOf s scale fraction = doubleOf (-s) scale fraction := by
  show Float.ofModel (Float.Model.pack (doubleOf s scale fraction).toModel.unpack.neg)
    = Float.ofModel (Float.Model.pack (unpack _ _))
  rw [unpack_doubleOf, unpack_packComponents]
  congr 2
  unfold valueOf
  split
  · split
    · rfl
    · rfl
  · split
    · split
      · rfl
      · rfl
    · rfl

/-- The absolute value has the positive sign and nothing else is changed. -/
theorem abs_doubleOf : (doubleOf s scale fraction).abs = doubleOf .positive scale fraction := by
  show Float.ofModel (Float.Model.pack (doubleOf s scale fraction).toModel.unpack.abs)
    = Float.ofModel (Float.Model.pack (unpack _ _))
  rw [unpack_doubleOf, unpack_packComponents]
  congr 2
  unfold valueOf
  split
  · split
    · rfl
    · rfl
  · split
    · split
      · rfl
      · rfl
    · rfl

/-- Infinities and NaN have the largest scale, and all others are finite. -/
theorem isFinite_doubleOf : (doubleOf s scale fraction).isFinite = true ↔ scale ≠ -1#11 := by
  show (doubleOf s scale fraction).toModel.unpack.isFinite = true ↔ _
  rw [unpack_doubleOf]
  unfold valueOf
  split
  · next h =>
    refine iff_of_false ?_ fun hne => hne h
    split
    · exact Bool.false_ne_true
    · exact Bool.false_ne_true
  · next h =>
    refine iff_of_true ?_ h
    split
    · split
      · rfl
      · rfl
    · rfl

/-- The bits of a double are those of the three fields one behind the other. -/
theorem toBits_doubleOf (h : scale ≠ -1#11) :
    (doubleOf s scale fraction).toBits.toNat
      = s.toBitVec.toNat * 2 ^ 63 + scale.toNat * 2 ^ 52 + fraction.toNat := by
  have hbits : (doubleOf s scale fraction).toBits.toBitVec
      = packComponents Format.binary64 s scale fraction := by
    show pack Format.binary64 (unpack Format.binary64 _) = _
    rw [pack_unpack, if_neg]
    simp only [isNaNBits, unpackExponent_packComponents, decide_eq_true_eq]
    exact fun hnan => h hnan.1
  show (doubleOf s scale fraction).toBits.toBitVec.toNat = _
  rw [hbits]
  unfold packComponents
  rw [BitVec.toNat_append, BitVec.toNat_append, ← Nat.shiftLeft_add_eq_or_of_lt fraction.isLt,
    ← Nat.shiftLeft_add_eq_or_of_lt scale.isLt, Nat.shiftLeft_eq, Nat.shiftLeft_eq, Nat.add_mul,
    Nat.mul_assoc, ← Nat.pow_add]

/-- A finite double is signed if its sign is the negative one, so also a zero may be. -/
theorem isSigned_doubleOf (h : scale ≠ -1#11) :
    Number.isSigned (doubleOf s scale fraction) = true ↔ s = .negative := by
  have hscale := scale.isLt
  have hfraction := fraction.isLt
  unfold Number.isSigned
  rw [decide_eq_true_eq, toBits_doubleOf h, Nat.pow_eq]
  cases s with
  | negative =>
    refine iff_of_true ?_ rfl
    show 2 ^ 63 ≤ 1 * 2 ^ 63 + scale.toNat * 2 ^ 52 + fraction.toNat
    omega
  | positive =>
    refine iff_of_false ?_ (by simp)
    show ¬ 2 ^ 63 ≤ 0 * 2 ^ 63 + scale.toNat * 2 ^ 52 + fraction.toNat
    omega

/-- What compares equal to zero is one of the two zeros. -/
theorem beq_zero_iff (x : Float) :
    (x == 0.0) = true ↔ ∃ s, x.toModel.unpack = .zero s := by
  have hzero : (0.0 : Float).toModel.unpack = .zero .positive := rfl
  show x.toModel.unpack.beq (0.0 : Float).toModel.unpack = true ↔ _
  rw [hzero, beq_iff_ne_notANumber_and_eq]
  constructor
  · rintro ⟨_, _, h | ⟨h, _⟩ | ⟨h, _⟩⟩
    · exact ⟨_, h⟩
    · exact ⟨_, h⟩
    · exact ⟨_, h⟩
  · rintro ⟨s, h⟩
    rw [h]
    cases s with
    | negative => simp
    | positive => simp

/-- Only fields that are all zero, but for the sign, stand for a zero. -/
theorem eq_zero_of_valueOf {t : Sign} (h : valueOf s scale fraction = .zero t) :
    scale = 0#11 ∧ fraction = 0#52 := by
  unfold valueOf at h
  split at h
  · split at h
    · exact absurd h (by simp)
    · exact absurd h (by simp)
  · split at h
    · next hscale =>
      split at h
      · next hfraction => exact ⟨hscale, hfraction⟩
      · exact absurd h (by simp)
    · exact absurd h (by simp)

/-- A double compares equal to zero if scale and fraction are zero. -/
theorem beq_zero_doubleOf :
    (doubleOf s scale fraction == 0.0) = true ↔ scale = 0#11 ∧ fraction = 0#52 := by
  rw [beq_zero_iff, unpack_doubleOf]
  constructor
  · rintro ⟨t, h⟩
    exact eq_zero_of_valueOf h
  · rintro ⟨rfl, rfl⟩
    exact ⟨s, rfl⟩

/-- A finite double is a number, and not infinite. -/
theorem isNaN_isInf_of_isFinite {x : Float} (h : x.isFinite = true) :
    x.isNaN = false ∧ x.isInf = false := by
  change x.toModel.unpack.isFinite = true at h
  show x.toModel.unpack.isNaN = false ∧ x.toModel.unpack.isInf = false
  cases hx : x.toModel.unpack with
  | infinity t => rw [hx] at h; exact absurd h (by simp [UnpackedFloat.isFinite])
  | notANumber => rw [hx] at h; exact absurd h (by simp [UnpackedFloat.isFinite])
  | zero t => exact ⟨rfl, rfl⟩
  | finite t m e hm => exact ⟨rfl, rfl⟩

/-- Only what is no number differs from itself. -/
theorem beq_self_of_isFinite {x : Float} (h : x.isFinite = true) : (x == x) = true := by
  change x.toModel.unpack.isFinite = true at h
  show x.toModel.unpack.beq x.toModel.unpack = true
  rw [beq_iff_ne_notANumber_and_eq]
  have hne : x.toModel.unpack ≠ .notANumber := by
    intro hx
    rw [hx] at h
    exact absurd h (by simp [UnpackedFloat.isFinite])
  exact ⟨hne, hne, Or.inl rfl⟩

/-! ## Signs -/

namespace Number

/-- Negating twice changes nothing, not even the sign of a zero. -/
theorem neg_neg (x : Float) : - -x = x := by
  obtain ⟨s, scale, fraction, rfl⟩ := exists_doubleOf x
  rw [neg_doubleOf, neg_doubleOf]
  cases s with
  | negative => rfl
  | positive => rfl

/-- A finite double stays finite under negation, and no other one becomes finite. -/
theorem isFinite_neg (x : Float) : (-x).isFinite = x.isFinite := by
  obtain ⟨s, scale, fraction, rfl⟩ := exists_doubleOf x
  rw [neg_doubleOf, Bool.eq_iff_iff, isFinite_doubleOf, isFinite_doubleOf]

theorem isFinite_abs (x : Float) : x.abs.isFinite = x.isFinite := by
  obtain ⟨s, scale, fraction, rfl⟩ := exists_doubleOf x
  rw [abs_doubleOf, Bool.eq_iff_iff, isFinite_doubleOf, isFinite_doubleOf]

theorem beq_zero_neg (x : Float) : (-x == 0.0) = (x == 0.0) := by
  obtain ⟨s, scale, fraction, rfl⟩ := exists_doubleOf x
  rw [neg_doubleOf, Bool.eq_iff_iff, beq_zero_doubleOf, beq_zero_doubleOf]

theorem beq_zero_abs (x : Float) : (x.abs == 0.0) = (x == 0.0) := by
  obtain ⟨s, scale, fraction, rfl⟩ := exists_doubleOf x
  rw [abs_doubleOf, Bool.eq_iff_iff, beq_zero_doubleOf, beq_zero_doubleOf]

variable {x : Float} (hfin : x.isFinite = true)
include hfin

/-- Negation turns the sign around, also that of a zero. -/
theorem isSigned_neg : isSigned (-x) = !isSigned x := by
  obtain ⟨s, scale, fraction, rfl⟩ := exists_doubleOf x
  have hscale := isFinite_doubleOf.mp hfin
  rw [neg_doubleOf, Bool.eq_iff_iff, isSigned_doubleOf hscale, Bool.not_eq_true',
    ← Bool.not_eq_true, isSigned_doubleOf hscale]
  cases s with
  | negative => exact iff_of_false (by simp [Neg.neg]) fun h => h rfl
  | positive => exact iff_of_true rfl (by simp)

/-- An absolute value has no sign, also that of a negative zero. -/
theorem isSigned_abs : isSigned x.abs = false := by
  obtain ⟨s, scale, fraction, rfl⟩ := exists_doubleOf x
  have hscale := isFinite_doubleOf.mp hfin
  rw [abs_doubleOf, ← Bool.not_eq_true, isSigned_doubleOf hscale]
  simp

/-- A double is its absolute value with its sign. -/
theorem abs_of_isSigned : (if isSigned x then -x.abs else x.abs) = x := by
  obtain ⟨s, scale, fraction, rfl⟩ := exists_doubleOf x
  have hscale := isFinite_doubleOf.mp hfin
  have hsigned : isSigned (doubleOf s scale fraction) = true ↔ s = .negative :=
    isSigned_doubleOf hscale
  rw [abs_doubleOf]
  cases s with
  | negative =>
    rw [if_pos (hsigned.mpr rfl), neg_doubleOf]
    rfl
  | positive => rw [if_neg fun h => absurd (hsigned.mp h) (by simp)]

end Number

end Sexpr
