import Sexpr.Proofs.Number.Fields

/-!
# Rounding

A double that is not zero is a significand over a power of two, in the one form that
rounding yields. A value that is given with more digits than that, but with none that
counts, is rounded to the double itself. So the decimal that writes a double out to its last
place reads back, and then every decimal that is tried before it may be chosen freely.

> `roundWithAccuracy_exact`: rounding takes away zeros only.
> `toFloat_exact`: the last resort among the decimals of a double reads back.
> `toFloat_shortest`: the decimal that is written reads back.
-/

namespace Sexpr

open Float.Model (Format UnpackedFloat totalExponent)
open Float.Model.UnpackedFloat

/-- The exponent of a double with leading bit at `n`. -/
theorem targetExponent_eq (n : Int) : Format.binary64.targetExponent n = max (n - 53) (-1074) := rfl

/-- Of all ways to write the value the one that rounding yields: with 53 bits, or with as
many as the smallest exponent leaves. -/
def Canonical (m : Nat) (e : Int) : Prop :=
  Format.binary64.targetExponent (totalExponent m e) = e

theorem shiftRight_exact (m k : Nat) :
    (ExtendedMantissa.mk (m * 2 ^ k) false false) >>> k = ExtendedMantissa.mk m false false := by
  induction k generalizing m with
  | zero => rw [Nat.pow_zero, Nat.mul_one]; rfl
  | succ k ih =>
    show ((ExtendedMantissa.mk (m * 2 ^ (k + 1)) false false) >>> k).shiftRightOne = _
    rw [Nat.pow_succ', ← Nat.mul_assoc, ih (m * 2)]
    simp [ExtendedMantissa.shiftRightOne]

/-- Zeros at the end move the leading bit up by as many places. -/
theorem log2_mul_two_pow {m : Nat} (hm : 0 < m) (k : Nat) : (m * 2 ^ k).log2 = m.log2 + k := by
  have hpos : 0 < 2 ^ k := Nat.two_pow_pos k
  rw [Nat.log2_eq_iff (Nat.mul_pos hm hpos).ne', Nat.add_right_comm, Nat.pow_add, Nat.pow_add]
  exact ⟨Nat.mul_le_mul_right _ (Nat.log2_self_le hm.ne'),
    (Nat.mul_lt_mul_right hpos).mpr Nat.lt_log2_self⟩

theorem totalExponent_mul_two_pow {m : Nat} (hm : 0 < m) (k : Nat) (e : Int) :
    totalExponent (m * 2 ^ k) (e - k) = totalExponent m e := by
  simp only [totalExponent, log2_mul_two_pow hm]
  omega

/-- Shifting zeros at the end out again loses nothing. -/
theorem shiftToTargetExponent_exact {m : Nat} (hm : 0 < m) {e : Int} (h : Canonical m e) (k : Nat) :
    shiftToTargetExponent Format.binary64 (m * 2 ^ k) (e - k) .exact
      = (ExtendedMantissa.mk m false false, e) := by
  have hamount : (e - (e - k)).toNat = k := by omega
  simp only [shiftToTargetExponent, shiftToExponent, totalExponent_mul_two_pow hm,
    ExtendedMantissa.ofMantissaAndAccuracy]
  rw [h, hamount, shiftRight_exact, Int.sub_add_cancel]

/-- A value with zeros at the end is rounded to the same value without them. -/
theorem roundWithAccuracy_exact (s : Sign) {m : Nat} (hm : 0 < m) {e : Int} (h : Canonical m e)
    (k : Nat) :
    roundWithAccuracy Format.binary64 s (m * 2 ^ k) (e - k) .exact = .finite s m e hm := by
  have hagain := shiftToTargetExponent_exact hm h 0
  rw [Nat.pow_zero, Nat.mul_one, Nat.cast_zero, sub_zero] at hagain
  have hrounded : (ExtendedMantissa.mk m false false).roundedMantissa = m := rfl
  simp only [roundWithAccuracy, shiftToTargetExponent_exact hm h k, hrounded, hagain]
  exact dif_neg hm.ne'

/-! ## Exact quotients -/

section

variable {c m n p q : Nat} {e : Int}

/-- The leading bit of a quotient is found from those of its parts, up to one place. -/
theorem log2_quotient_lt (hc : 0 < c) (hquot : c * 2 ^ q = m * 2 ^ n * p) :
    c.log2 + q < m.log2 + n + p.log2 + 2 := by
  have hlow : 2 ^ (c.log2 + q) ≤ c * 2 ^ q := by
    rw [Nat.pow_add]
    exact Nat.mul_le_mul_right _ (Nat.log2_self_le hc.ne')
  have hhigh : m * 2 ^ n * p < 2 ^ (m.log2 + 1) * 2 ^ n * 2 ^ (p.log2 + 1) :=
    Nat.mul_lt_mul'' ((Nat.mul_lt_mul_right (Nat.two_pow_pos n)).mpr Nat.lt_log2_self)
      Nat.lt_log2_self
  rw [← hquot, ← Nat.pow_add, ← Nat.pow_add] at hhigh
  have hlt := (Nat.pow_lt_pow_iff_right (by decide)).mp (Nat.lt_of_le_of_lt hlow hhigh)
  omega

/-- The quotient is computed with enough digits, and nothing is left. -/
theorem divCore_exact (hc : 0 < c) (hp : 0 < p) (hquot : c * 2 ^ q = m * 2 ^ n * p)
    (he : e = n - q) (hcanon : Canonical m e) :
    ∃ k : Nat, divCore Format.binary64 c 0 p 0 = (m * 2 ^ k, e - k, .exact) := by
  have hlog := log2_quotient_lt hc hquot
  simp only [divCore]
  generalize ht : min (0 - 0 : Int)
    (Format.binary64.targetExponent (totalExponent c 0 - totalExponent p 0)) = t
  -- the quotient is taken on a grid at least as fine as the one of the result
  have hte : t ≤ e := by
    unfold Canonical at hcanon
    rw [targetExponent_eq] at ht hcanon
    simp only [totalExponent] at ht hcanon
    omega
  have ht₀ : t ≤ 0 := by omega
  -- on that grid the denominator divides what is above the line
  have hshifted : c <<< (0 - 0 - t).toNat = m * 2 ^ (e - t).toNat * p := by
    refine Nat.eq_of_mul_eq_mul_right (Nat.two_pow_pos q) ?_
    have hexp : (e - t).toNat + q = n + (0 - 0 - t).toNat := by omega
    calc c <<< (0 - 0 - t).toNat * 2 ^ q
        = c * 2 ^ q * 2 ^ (0 - 0 - t).toNat := by rw [Nat.shiftLeft_eq, Nat.mul_right_comm]
      _ = m * p * 2 ^ (n + (0 - 0 - t).toNat) := by rw [hquot, Nat.pow_add]; ring
      _ = m * 2 ^ (e - t).toNat * p * 2 ^ q := by rw [← hexp, Nat.pow_add]; ring
  refine ⟨(e - t).toNat, ?_⟩
  rw [hshifted, Nat.mul_div_cancel _ hp, Nat.mul_mod_left, accuracyOfFraction, if_pos rfl]
  congr 2
  omega

end

/-! ## The decimals of a double -/

/-- A double is rebuilt from what it stands for. -/
theorem ofModel_pack_unpack (x : Float) : Float.ofModel (Float.Model.pack x.toModel.unpack) = x :=
  Float.ofBits_toBits x

/-- What a finite double stands for, by its fields: below the smallest normal double there is no
hidden bit. -/
theorem ofFloat_doubleOf {s : Sign} {scale : BitVec 11} {fraction : BitVec 52}
    (h : scale ≠ -1#11) :
    Binary.ofFloat (doubleOf s scale fraction)
      = if scale.toNat = 0 then { significand := fraction.toNat, exponent := -1074 }
        else
          { significand := 2 ^ 52 + fraction.toNat, exponent := (scale.toNat : Int) - 1075 } := by
  have hscale := scale.isLt
  have hfraction := fraction.isLt
  have hsign := s.toBitVec.isLt
  simp only [Binary.ofFloat, toBits_doubleOf h, Nat.pow_eq]
  have hscale' : (s.toBitVec.toNat * 2 ^ 63 + scale.toNat * 2 ^ 52 + fraction.toNat) / 2 ^ 52
      % 2 ^ 11 = scale.toNat := by omega
  have hfraction' : (s.toBitVec.toNat * 2 ^ 63 + scale.toNat * 2 ^ 52 + fraction.toNat) % 2 ^ 52
      = fraction.toNat := by omega
  rw [hscale', hfraction']

/-- A finite double without a sign has the positive one in its fields. -/
theorem sign_eq_positive {s : Sign} {scale : BitVec 11} {fraction : BitVec 52} (h : scale ≠ -1#11)
    (hsign : Number.isSigned (doubleOf s scale fraction) = false) : s = .positive := by
  cases s with
  | negative => rw [(isSigned_doubleOf h).mpr rfl] at hsign; exact absurd hsign (by decide)
  | positive => rfl

/-- What a double without a sign stands for, if it is not zero. -/
structure Stands (x : Float) (v : Binary) : Prop where
  pos : 0 < v.significand
  unpack : x.toModel.unpack = .finite .positive v.significand v.exponent pos
  canonical : Canonical v.significand v.exponent
  size : v.exponent = -1074 ∨ 2 ^ 52 ≤ v.significand ∧ -1074 ≤ v.exponent

/-- A finite double without a sign stands for its significand and exponent. -/
theorem stands_ofFloat {x : Float} (hfin : x.isFinite = true) (hsign : Number.isSigned x = false)
    (hpos : 0 < (Binary.ofFloat x).significand) : Stands x (Binary.ofFloat x) := by
  obtain ⟨s, scale, fraction, rfl⟩ := exists_doubleOf x
  have hscale := isFinite_doubleOf.mp hfin
  have hs : s = .positive := sign_eq_positive hscale hsign
  subst hs
  have hfraction := fraction.isLt
  rw [ofFloat_doubleOf hscale] at hpos ⊢
  -- a scale of zero means a subnormal double, without the leading bit
  by_cases hzero : scale.toNat = 0
  · have hscale₀ : scale = 0#11 := BitVec.eq_of_toNat_eq hzero
    rw [if_pos hzero] at hpos ⊢
    change 0 < fraction.toNat at hpos
    have hfraction₀ : fraction ≠ 0#52 := by
      rintro rfl
      exact absurd hpos (by decide)
    have hlog : fraction.toNat.log2 < 52 := (Nat.log2_lt hpos.ne').mpr hfraction
    refine ⟨hpos, ?_, ?_, Or.inl rfl⟩
    · rw [unpack_doubleOf, valueOf, if_neg hscale, if_pos hscale₀, dif_neg hfraction₀]
    · show Format.binary64.targetExponent (totalExponent fraction.toNat (-1074)) = -1074
      rw [targetExponent_eq, totalExponent]
      omega
  · have hscale₀ : scale ≠ 0#11 := by
      rintro rfl
      exact hzero rfl
    rw [if_neg hzero] at hpos ⊢
    have hlog : (2 ^ 52 + fraction.toNat).log2 = 52 := by
      rw [Nat.log2_eq_iff (by omega)]
      omega
    refine ⟨hpos, ?_, ?_, Or.inr ⟨Nat.le_add_right _ _, ?_⟩⟩
    · rw [unpack_doubleOf, valueOf, if_neg hscale, if_neg hscale₀]
    · show Format.binary64.targetExponent
        (totalExponent (2 ^ 52 + fraction.toNat) ((scale.toNat : Int) - 1075))
          = (scale.toNat : Int) - 1075
      rw [targetExponent_eq, totalExponent, hlog]
      omega
    · show -1074 ≤ (scale.toNat : Int) - 1075
      omega

/-- The exact decimal is a quotient without remainder. -/
theorem exact_mul_denominator (v : Binary) :
    (Decimal.exact v).coefficient * 2 ^ (-v.exponent).toNat
      = v.significand * 2 ^ v.exponent.toNat * 10 ^ (Decimal.exact v).places := by
  have hdvd : v.denominator ∣ v.numerator * 10 ^ (Decimal.exact v).places := by
    have hten : (10 : Nat) ^ (Decimal.exact v).places
        = 2 ^ (Decimal.exact v).places * 5 ^ (Decimal.exact v).places := by
      rw [← Nat.mul_pow]
    rw [hten]
    refine Dvd.dvd.mul_left (Dvd.dvd.mul_right (Nat.pow_dvd_pow 2 ?_) _) _
    show (-v.exponent).toNat ≤ max 1 (-v.exponent).toNat
    omega
  exact Nat.div_mul_cancel hdvd

/-- Its coefficient or its places are too many for the short way of reading. -/
theorem exact_large {x : Float} {v : Binary} (h : Stands x v) :
    2 ^ 53 ≤ (Decimal.exact v).coefficient ∨ 22 < (Decimal.exact v).places := by
  rcases h.size with hsub | ⟨hnormal, _⟩
  · right
    show 22 < max 1 (-v.exponent).toNat
    omega
  · left
    have hquot := exact_mul_denominator v
    have hplaces : (Decimal.exact v).places = max 1 (-v.exponent).toNat := rfl
    generalize (Decimal.exact v).coefficient = c at hquot ⊢
    generalize (Decimal.exact v).places = p at hquot hplaces
    have hten : 2 ^ (-v.exponent).toNat * 5 ≤ 10 ^ p := by
      calc 2 ^ (-v.exponent).toNat * 5
          ≤ 2 ^ p * 5 ^ p := Nat.mul_le_mul (Nat.pow_le_pow_right (by decide) (by omega))
            (Nat.le_self_pow (by omega) 5)
        _ = 10 ^ p := by rw [← Nat.mul_pow]
    have hle : 2 ^ 52 * 5 * 2 ^ (-v.exponent).toNat ≤ c * 2 ^ (-v.exponent).toNat := by
      rw [hquot]
      calc 2 ^ 52 * 5 * 2 ^ (-v.exponent).toNat
          = 2 ^ 52 * 1 * (2 ^ (-v.exponent).toNat * 5) := by ring
        _ ≤ v.significand * 2 ^ v.exponent.toNat * 10 ^ p :=
          Nat.mul_le_mul (Nat.mul_le_mul hnormal Nat.one_le_two_pow) hten
    have hc := Nat.le_of_mul_le_mul_right hle (Nat.two_pow_pos _)
    omega

/-- The exact decimal of a double reads as the double. -/
theorem toFloat_exact {x : Float} {v : Binary} (h : Stands x v) :
    (Decimal.exact v).toFloat = x := by
  have hlarge := exact_large h
  have hquot := exact_mul_denominator v
  have hplaces : (Decimal.exact v).places = max 1 (-v.exponent).toNat := rfl
  have hsize : -1074 ≤ v.exponent := by
    rcases h.size with hsub | ⟨_, hexp⟩
    · omega
    · exact hexp
  unfold Decimal.toFloat
  generalize (Decimal.exact v).coefficient = c at hlarge hquot ⊢
  generalize (Decimal.exact v).places = p at hlarge hquot hplaces ⊢
  have hc : 0 < c := by
    rcases Nat.eq_zero_or_pos c with rfl | hc
    · have hpos := h.pos
      have hprod : 0 < v.significand * 2 ^ v.exponent.toNat * 10 ^ p := by positivity
      omega
    · exact hc
  obtain ⟨k, hdiv⟩ :=
    divCore_exact hc (by positivity) hquot (e := v.exponent) (by omega) h.canonical
  have hscientific : UnpackedFloat.ofScientific Format.binary64 c (Int.negOfNat p)
      = .finite .positive v.significand v.exponent h.pos := by
    have hneg : Int.negOfNat p = -p := Int.negOfNat_eq
    have hp : (- -(p : Int)).toNat = p := by omega
    have hmax : (2 : Int) ^ Format.binary64.exponentBits = 2048 := rfl
    unfold UnpackedFloat.ofScientific
    rw [dif_neg hc.ne', hneg, if_neg (by omega), if_neg (by omega), if_neg (by omega)]
    show (let (m, e, accuracy) := divCore Format.binary64 c 0 (10 ^ (- -(p : Int)).toNat) 0
      roundWithAccuracy Format.binary64 .positive m e accuracy) = _
    rw [hp, hdiv]
    exact roundWithAccuracy_exact .positive h.pos h.canonical k
  unfold Float.ofScientific
  rw [dif_neg (by omega)]
  show Float.ofModel (Float.Model.pack
    (UnpackedFloat.ofScientific Format.binary64 c (Int.negOfNat p))) = x
  rw [hscientific, ← h.unpack]
  exact ofModel_pack_unpack x

/-- Whichever decimal is written for a double, it reads back. -/
theorem toFloat_shortest {x : Float} (hfin : x.isFinite = true)
    (hsign : Number.isSigned x = false) :
    (Decimal.shortest x).toFloat = x := by
  rcases Nat.eq_zero_or_pos (Binary.ofFloat x).significand with hzero | hpos
  · have hx : x = doubleOf .positive 0#11 0#52 := by
      obtain ⟨s, scale, fraction, rfl⟩ := exists_doubleOf x
      have hscale := isFinite_doubleOf.mp hfin
      rw [ofFloat_doubleOf hscale] at hzero
      have hs : s = .positive := sign_eq_positive hscale hsign
      by_cases hscale₀ : scale.toNat = 0
      · rw [if_pos hscale₀] at hzero
        rw [hs, BitVec.eq_of_toNat_eq (y := 0#11) hscale₀,
          BitVec.eq_of_toNat_eq (y := 0#52) hzero]
      · rw [if_neg hscale₀] at hzero
        change 2 ^ 52 + fraction.toNat = 0 at hzero
        omega
    have hshortest : Decimal.shortest x = { coefficient := 0, places := 1 } := by
      simp only [Decimal.shortest]
      rw [if_pos hzero]
    rw [hshortest, hx]
    rfl
  · simp only [Decimal.shortest]
    rw [if_neg hpos.ne']
    -- what a grid gave has been read back there and then
    cases hgrid : (List.range 20).findSome? fun (step : Nat) =>
        Decimal.neighbour? x (Binary.ofFloat x) ((Binary.ofFloat x).topGrid - step) with
    | none => exact toFloat_exact (stands_ofFloat hfin hsign hpos)
    | some d =>
      obtain ⟨step, _, hstep⟩ := List.exists_of_findSome?_eq_some hgrid
      exact Decimal.toFloat_of_neighbour? hstep

/-! ## Values that are not lost -/

theorem shiftRight_mantissa (em : ExtendedMantissa) (k : Nat) :
    (em >>> k).mantissa = em.mantissa / 2 ^ k := by
  induction k with
  | zero => rw [Nat.pow_zero, Nat.div_one]; rfl
  | succ k ih =>
    show (em >>> k).mantissa / 2 = _
    rw [ih, Nat.div_div_eq_div_mul, Nat.pow_succ]

/-- A significand that fits the format and is not zero. -/
def Fits (m : Nat) (e : Int) : Prop :=
  0 < m ∧ m < 2 ^ 53 ∧ -1074 ≤ e

/-- No shift goes beyond the leading bit, as the smallest exponent was reached before. -/
theorem fits_shiftToTargetExponent {m : Nat} (hm : 0 < m) {e : Int} (he : -1074 ≤ e)
    (accuracy : Accuracy) :
    Fits (shiftToTargetExponent Format.binary64 m e accuracy).1.mantissa
      (shiftToTargetExponent Format.binary64 m e accuracy).2 := by
  generalize hk : (Format.binary64.targetExponent (totalExponent m e) - e).toNat = k
  rw [targetExponent_eq, totalExponent] at hk
  have hmantissa : (shiftToTargetExponent Format.binary64 m e accuracy).1.mantissa = m / 2 ^ k := by
    have hinit : (ExtendedMantissa.ofMantissaAndAccuracy m accuracy).mantissa = m := by
      cases accuracy with
      | exact => rfl
      | inexact side =>
        cases side with
        | lt => rfl
        | eq => rfl
        | gt => rfl
    simp only [shiftToTargetExponent, shiftToExponent, targetExponent_eq, totalExponent, hk]
    rw [shiftRight_mantissa, hinit]
  have hexponent : (shiftToTargetExponent Format.binary64 m e accuracy).2 = e + k := by
    simp only [shiftToTargetExponent, shiftToExponent, targetExponent_eq, totalExponent, hk]
  have hpow : 2 ^ k ≤ m :=
    Nat.le_trans (Nat.pow_le_pow_right (by decide) (by omega)) (Nat.log2_self_le hm.ne')
  have hlt : m < 2 ^ 53 * 2 ^ k := by
    rw [← Nat.pow_add]
    exact Nat.lt_of_lt_of_le Nat.lt_log2_self (Nat.pow_le_pow_right (by decide) (by omega))
  rw [hmantissa, hexponent]
  exact ⟨Nat.div_pos hpow (Nat.two_pow_pos k), (Nat.div_lt_iff_lt_mul (Nat.two_pow_pos k)).mpr hlt,
    by omega⟩

/-- Rounding may add one in the last place and takes nothing away. -/
theorem mantissa_le_roundedMantissa (em : ExtendedMantissa) :
    em.mantissa ≤ em.roundedMantissa := by
  unfold ExtendedMantissa.roundedMantissa
  cases em.accuracy with
  | exact => exact Nat.le_refl _
  | inexact side =>
    cases side with
    | lt => exact Nat.le_refl _
    | eq => exact Nat.le_add_right _ _
    | gt => exact Nat.le_succ _

/-- A value that is not zero is rounded to one whose significand fits and is not zero. -/
theorem roundWithAccuracy_fits (s : Sign) {m : Nat} (hm : 0 < m) {e : Int} (he : -1074 ≤ e)
    (accuracy : Accuracy) :
    ∃ m' e' h,
      roundWithAccuracy Format.binary64 s m e accuracy = .finite s m' e' h ∧ Fits m' e' := by
  have hfirst := fits_shiftToTargetExponent hm he accuracy
  have hrounded := mantissa_le_roundedMantissa
    (shiftToTargetExponent Format.binary64 m e accuracy).1
  have hsecond := fits_shiftToTargetExponent (Nat.lt_of_lt_of_le hfirst.1 hrounded)
    hfirst.2.2 .exact
  -- rounding up may carry into another bit, so the significand is shifted once more
  refine ⟨_, _, hsecond.1, ?_, hsecond⟩
  exact dif_neg hsecond.1.ne'

theorem round_fits (s : Sign) {m : Nat} (hm : 0 < m) :
    ∃ m' e' h, UnpackedFloat.round Format.binary64 s m 0 = .finite s m' e' h ∧ Fits m' e' := by
  simp only [UnpackedFloat.round, decreaseExponent, targetExponent_eq, totalExponent]
  refine roundWithAccuracy_fits s ?_ (by omega) .exact
  rw [Nat.shiftLeft_eq]
  exact Nat.mul_pos hm (Nat.two_pow_pos _)

/-- What is packed may overflow, but does not vanish. -/
theorem unpack_pack_ne_zero (s : Sign) {m : Nat} (hm : 0 < m) {e : Int} (h : Fits m e) (t : Sign) :
    unpack Format.binary64 (pack Format.binary64 (.finite s m e hm)) ≠ .zero t := by
  have hbias : Format.binary64.exponentBias = 1023 := rfl
  have hbits : Format.binary64.mantissaBits = 53 := rfl
  have hpow : (2 : Nat) ^ Format.binary64.exponentBits = 2048 := rfl
  obtain ⟨_, hlt, he⟩ := h
  intro hzero
  simp only [pack] at hzero
  rw [hbias, hbits, hpow] at hzero
  -- infinite, normal or subnormal: each has a field that is not zero
  split at hzero
  · rw [packedInfinity, unpack_packComponents] at hzero
    exact absurd (eq_zero_of_valueOf hzero).1 (by decide)
  · next hoverflow =>
    split at hzero
    · rw [unpack_packComponents] at hzero
      have hscale := congrArg BitVec.toNat (eq_zero_of_valueOf hzero).1
      rw [BitVec.toNat_ofNat, BitVec.toNat_ofNat] at hscale
      omega
    · next hlog =>
      rw [unpack_packComponents] at hzero
      have hfraction := congrArg BitVec.toNat (eq_zero_of_valueOf hzero).2
      rw [BitVec.toNat_ofNat, BitVec.toNat_ofNat] at hfraction
      have hlog53 : m.log2 < 53 := (Nat.log2_lt hm.ne').mpr hlt
      have hsmall : m < 2 ^ 52 := (Nat.log2_lt hm.ne').mp (by omega)
      omega

theorem leading_pos {n : Nat} (hn : 0 < n) : 0 < leading n := by
  have hkept : 0 < n >>> (n.log2 - 63) := by
    rw [Nat.shiftRight_eq_div_pow]
    refine Nat.div_pos ?_ (Nat.two_pow_pos _)
    exact Nat.le_trans (Nat.pow_le_pow_right (by decide) (Nat.sub_le _ _)) (Nat.log2_self_le hn.ne')
  simp only [leading]
  rw [Nat.shiftLeft_eq]
  refine Nat.mul_pos ?_ (Nat.two_pow_pos _)
  split
  · exact Nat.lt_of_lt_of_le hkept Nat.left_le_or
  · exact hkept

/-- Only the integer zero becomes a zero. -/
theorem beq_zero_floatOfInt {n : Int} (hn : n ≠ 0) : (floatOfInt n == 0.0) = false := by
  have hpos : 0 < leading n.natAbs := leading_pos (Int.natAbs_pos.mpr hn)
  have hmagnitude : (Float.ofModel (.ofNat (leading n.natAbs)) == 0.0) = false := by
    rw [← Bool.not_eq_true, beq_zero_iff]
    rintro ⟨t, ht⟩
    obtain ⟨m, e, h, hround, hfits⟩ := round_fits .positive hpos
    have hofNat : UnpackedFloat.ofNat Format.binary64 (leading n.natAbs)
        = .finite .positive m e h := by
      show (match compare (leading n.natAbs : Int) 0 with
        | .lt => _
        | .eq => _
        | .gt => UnpackedFloat.round Format.binary64 .positive (leading n.natAbs : Int).toNat 0) = _
      rw [Int.compare_eq_gt.mpr (by omega), Int.toNat_natCast, hround]
    change unpack Format.binary64 (pack Format.binary64
      (UnpackedFloat.ofNat Format.binary64 (leading n.natAbs))) = .zero t at ht
    rw [hofNat] at ht
    exact unpack_pack_ne_zero .positive h hfits t ht
  simp only [floatOfInt]
  split
  · rw [Number.beq_zero_neg, hmagnitude]
  · exact hmagnitude

end Sexpr
