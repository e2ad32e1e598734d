import InlineImpact.Statistics
import Mathlib

/-!
Doubles that stay finite. Rounding raises the exponent of a number no further than its size demands, so
integers below half the largest power of two are finite doubles, and the square of a finite root is
finite again: the deviation of some samples always has a square.
-/
namespace InlineImpact.Decimal

open Float.Model (UnpackedFloat Format totalExponent)
open Float.Model.UnpackedFloat

/-- A number whose exponent is at most `k`. -/
inductive Fits (k : ℤ) : UnpackedFloat → Prop
  | zero (s : Sign) : Fits k (.zero s)
  | finite (s : Sign) {m : ℕ} {e : ℤ} (hm : 0 < m) (h : e ≤ k) : Fits k (.finite s m e hm)

theorem Fits.isFinite {k : ℤ} {u : UnpackedFloat} (h : Fits k u) : u.isFinite = true := by
  cases h <;> rfl

private theorem fits_unpack_packComponents {k : ℤ} {b : ℕ} (s : Sign) (mantissa : BitVec 52)
    (low : -1074 ≤ k) (hk : (b : ℤ) ≤ k + 1075) (hb : b < 2047) :
    Fits k (unpack .binary64 (packComponents .binary64 s (BitVec.ofNat 11 b) mantissa)) := by
  have hnat : (BitVec.ofNat 11 b).toNat = b := by
    rw [BitVec.toNat_ofNat, Nat.mod_eq_of_lt (by omega)]
  have hbias : (Format.binary64.exponentBias : ℤ) = 1023 := rfl
  have hmax : BitVec.ofNat 11 b ≠ -1#11 := fun h => by
    have := congrArg BitVec.toNat h
    rw [hnat] at this
    simp at this
    omega
  rw [unpack]
  simp only [unpackMantissa_packComponents, unpackExponent_packComponents, hmax, if_false, hnat, hbias]
  split
  · split
    · exact .zero _
    · refine .finite _ _ ?_
      have := congrArg BitVec.toNat ‹BitVec.ofNat 11 b = 0#11›
      rw [hnat] at this
      simp at this
      omega
  · refine .finite _ _ ?_
    push_cast
    omega

/-- What a number stands for once it is packed into a double. The largest doubles have exponent 971. -/
theorem Fits.unpack_pack {k : ℤ} {u : UnpackedFloat} (h : Fits k u) (low : -1074 ≤ k) (high : k ≤ 971) :
    Fits k (Float.Model.pack u).unpack := by
  show Fits k (unpack .binary64 (pack .binary64 u))
  cases h with
  | zero s =>
    rw [pack, unpack_packedZero]
    exact .zero s
  | @finite s m e hm he =>
    have hbias : (e + Format.binary64.exponentBias + Format.binary64.mantissaBitsWithoutImplicit).toNat
        = (e + 1075).toNat := by
      show (e + (1023 : ℕ) + (52 : ℕ)).toNat = (e + 1075).toNat
      omega
    rw [pack]
    simp only [hbias]
    rw [if_neg (by show ¬ 2048 ≤ _; omega)]
    split
    · exact fits_unpack_packComponents s _ low (by omega) (by omega)
    · exact fits_unpack_packComponents s _ low (by omega : ((0 : ℕ) : ℤ) ≤ _) (by omega)

theorem unpack_bounds {x : Float} {s : Sign} {m : ℕ} {e : ℤ} {hm : 0 < m}
    (h : x.toModel.unpack = .finite s m e hm) : m < 2 ^ 53 ∧ -1074 ≤ e ∧ e ≤ 971 := by
  have hbias : (Format.binary64.exponentBias : ℤ) = 1023 := rfl
  have hbits : (Format.binary64.mantissaBitsWithoutImplicit : ℤ) = 52 := rfl
  have h : unpack .binary64 x.toModel.toBits.toBitVec = .finite s m e hm := h
  generalize x.toModel.toBits.toBitVec = b at h
  have hmantissa : (@unpackMantissa .binary64 b).toNat < 2 ^ 52 := BitVec.isLt _
  have hexponent : (@unpackExponent .binary64 b).toNat < 2 ^ 11 := BitVec.isLt _
  rw [unpack] at h
  simp only [hbias, hbits] at h
  split at h
  · split at h <;> cases h
  · rename_i hmax
    have hmax := BitVec.toNat_ne.1 hmax
    simp at hmax
    split at h
    · rename_i hzero
      have hzero := congrArg BitVec.toNat hzero
      simp at hzero
      split at h
      · cases h
      · cases h
        omega
    · rename_i hzero
      have hzero := BitVec.toNat_ne.1 hzero
      simp at hzero
      cases h
      rw [BitVec.toNat_append, ← Nat.shiftLeft_add_eq_or_of_lt hmantissa]
      simp [Nat.shiftLeft_eq]
      omega

section Rounding

variable (s : Sign) (m : ℕ) (e : ℤ) (accuracy : Accuracy)

theorem mantissa_shiftRight (em : ExtendedMantissa) (n : ℕ) : (em >>> n).mantissa = em.mantissa / 2 ^ n := by
  induction n with
  | zero => simp [HShiftRight.hShiftRight, Nat.repeat]
  | succ n ih =>
    show (em >>> n).mantissa / 2 = _
    rw [ih, Nat.div_div_eq_div_mul, pow_succ]

theorem roundedMantissa_le (em : ExtendedMantissa) : em.roundedMantissa ≤ em.mantissa + 1 := by
  rw [ExtendedMantissa.roundedMantissa]
  rcases em.accuracy with _ | _ | _ | _ <;> simp only [Accuracy.roundToNearestEven] <;> omega

/-- The exponent after the first shift of rounding. -/
def firstExponent : ℤ := max e (Format.binary64.targetExponent (totalExponent m e))

/-- The mantissa after the first shift of rounding; it may have one bit more than fits. -/
def firstMantissa : ℕ :=
  (ExtendedMantissa.ofMantissaAndAccuracy m accuracy >>> (firstExponent m e - e).toNat).roundedMantissa

theorem targetExponent_le_iff {t k : ℤ} :
    Format.binary64.targetExponent t ≤ k ↔ t ≤ k + 53 ∧ -1074 ≤ k := by
  have hb : (Format.binary64.mantissaBits : ℤ) = 53 := rfl
  have he : Format.binary64.minExponent = -1074 := rfl
  rw [Format.targetExponent, hb, he, max_le_iff, sub_le_iff_le_add]

theorem shiftToTargetExponent_eq :
    shiftToTargetExponent .binary64 m e accuracy =
      (ExtendedMantissa.ofMantissaAndAccuracy m accuracy >>> (firstExponent m e - e).toNat,
        firstExponent m e) := by
  rw [shiftToTargetExponent, shiftToExponent]
  generalize ht : Format.binary64.targetExponent (totalExponent m e) = t
  have hmax : firstExponent m e = max e t := by rw [firstExponent, ht]
  have hshift : (t - e).toNat = (max e t - e).toNat := by omega
  have hend : e + ((t - e).toNat : ℤ) = max e t := by omega
  rw [hmax, ← hshift, hend]

/-- Rounding to a double ends with an exponent of at most `k`, if both shifts do. -/
theorem fits_roundWithAccuracy {k : ℤ} (low : -1074 ≤ k) (hfirst : firstExponent m e ≤ k)
    (hlast : totalExponent (firstMantissa m e accuracy) (firstExponent m e) ≤ k + 53) :
    Fits k (roundWithAccuracy .binary64 s m e accuracy) := by
  rw [roundWithAccuracy, shiftToTargetExponent_eq]
  simp only [shiftToTargetExponent_eq]
  split
  · exact .zero s
  · exact .finite s _ (max_le hfirst (targetExponent_le_iff.2 ⟨hlast, low⟩))

theorem le_firstExponent : e ≤ firstExponent m e := le_max_left _ _

theorem totalExponent_le_firstExponent : totalExponent m e ≤ firstExponent m e + 53 := by
  have := le_max_right e (Format.binary64.targetExponent (totalExponent m e))
  exact (targetExponent_le_iff.1 this).1

theorem firstMantissa_le : firstMantissa m e accuracy ≤ m / 2 ^ (firstExponent m e - e).toNat + 1 := by
  refine (roundedMantissa_le _).trans ?_
  rw [mantissa_shiftRight]
  rcases accuracy with _ | _ | _ | _ <;> exact le_rfl

theorem firstMantissa_of_fits (h : firstExponent m e = e) :
    firstMantissa m e accuracy = accuracy.roundToNearestEven m := by
  rw [firstMantissa, h, sub_self]
  rcases accuracy with _ | _ | _ | _ <;> rfl

theorem totalExponent_le {n : ℕ} (h : m < 2 ^ n) (pos : 0 < n) : totalExponent m e ≤ n + e := by
  have : m.log2 < n := by
    rcases Nat.eq_zero_or_pos m with rfl | hm
    · simpa using pos
    · exact (Nat.log2_lt hm.ne').2 h
  rw [totalExponent]
  omega

theorem lt_two_pow_totalExponent {k : ℤ} {n : ℕ} (h : totalExponent m e ≤ k) (hn : k ≤ n + e) :
    m < 2 ^ n := by
  rw [totalExponent] at h
  exact Nat.lt_log2_self.trans_le (Nat.pow_le_pow_right two_pos (by omega))

/-- Rounding raises the exponent by at most one more than what makes the mantissa fit. -/
theorem fits_of_totalExponent_le {k : ℤ} (low : -1074 ≤ k) (he : e ≤ k)
    (ht : totalExponent m e ≤ k + 53) : Fits (k + 1) (roundWithAccuracy .binary64 s m e accuracy) := by
  have hfirst : firstExponent m e ≤ k := max_le he (targetExponent_le_iff.2 ⟨ht, low⟩)
  have hle := le_firstExponent m e
  have hdiv : m / 2 ^ (firstExponent m e - e).toNat < 2 ^ 53 := by
    rw [Nat.div_lt_iff_lt_mul (by positivity), ← pow_add]
    exact lt_two_pow_totalExponent m e (totalExponent_le_firstExponent m e) (by push_cast; omega)
  have hmantissa : firstMantissa m e accuracy < 2 ^ 54 := by
    have := firstMantissa_le m e accuracy
    omega
  have := totalExponent_le _ (firstExponent m e) hmantissa (by norm_num)
  exact fits_roundWithAccuracy s m e accuracy (by omega) (by omega) (by push_cast at this; omega)

end Rounding

theorem fits_unpack {x : Float} (h : x.isFinite = true) : Fits 971 x.toModel.unpack := by
  have h : x.toModel.unpack.isFinite = true := h
  cases hx : x.toModel.unpack with
  | zero s => exact .zero s
  | finite s m e hm => exact .finite s hm (unpack_bounds hx).2.2
  | infinity s => rw [hx] at h; cases h
  | notANumber => rw [hx] at h; cases h

theorem isFinite_neg {x : Float} (h : x.isFinite = true) : (-x).isFinite = true := by
  have hneg : Fits 971 x.toModel.unpack.neg := by
    have hfits := fits_unpack h
    generalize x.toModel.unpack = u at hfits
    cases hfits with
    | zero s => exact .zero _
    | finite s hm he => exact .finite _ hm he
  exact (hneg.unpack_pack (by norm_num) le_rfl).isFinite

/-- A product of two doubles whose exponents leave room for the bits of both mantissas. -/
theorem fits_mul {x y : Float} {i j : ℤ} (hx : Fits i x.toModel.unpack) (hy : Fits j y.toModel.unpack)
    (low : -1127 ≤ i + j) : Fits (i + j + 54) (mul .binary64 x.toModel.unpack y.toModel.unpack) := by
  generalize ux : x.toModel.unpack = u at hx
  generalize uy : y.toModel.unpack = v at hy
  cases hx with
  | zero s => cases hy <;> exact .zero _
  | @finite s m e hm he =>
    cases hy with
    | zero s' => exact .zero _
    | @finite s' m' e' hm' he' =>
      have hprod : m * m' < 2 ^ 106 :=
        (Nat.mul_lt_mul'' (unpack_bounds ux).1 (unpack_bounds uy).1).trans_eq (by norm_num)
      have ht := totalExponent_le _ (e + e') hprod (by norm_num)
      push_cast at ht
      have := fits_of_totalExponent_le (s * s') (m * m') (e + e') .exact (k := i + j + 53)
        (by omega) (by omega) (by omega)
      rwa [add_assoc (i + j)] at this

theorem shiftLeft_lt {m n : ℕ} (i : ℕ) (h : m < 2 ^ n) : m <<< i < 2 ^ (n + i) := by
  rw [Nat.shiftLeft_eq, pow_add]
  exact Nat.mul_lt_mul_of_pos_right h (by positivity)

/-- An integer that a mantissa can hold. -/
theorem fits_toFloat {n : ℕ} (h : n < 2 ^ 53) : Fits 1 n.toUInt64.toFloat.toModel.unpack := by
  have hn : n.toUInt64.toNat = n := by
    rw [Nat.toUInt64_eq, UInt64.toNat_ofNat']
    exact Nat.mod_eq_of_lt (h.trans (by norm_num))
  have hnormal : Fits 1 (UnpackedFloat.normalize .binary64 (n.toUInt64.toNat : ℤ) 0 .positive) := by
    rw [hn, UnpackedFloat.normalize]
    split
    · have := compare_lt_iff_lt.1 ‹compare (n : ℤ) 0 = .lt›
      omega
    · exact .zero _
    · rw [Int.toNat_natCast, UnpackedFloat.round]
      generalize hi : (0 - Format.binary64.targetExponent (totalExponent n 0)).toNat = i
      have ht := totalExponent_le _ (0 - (i : ℤ)) (shiftLeft_lt i h) (by omega)
      push_cast at ht
      simp only [decreaseExponent, hi]
      exact fits_of_totalExponent_le .positive _ _ .exact (k := 0) (by norm_num) (by omega) (by omega)
  exact hnormal.unpack_pack (by norm_num) (by norm_num)

theorem fits_ofScientific {n : ℕ} (h : n < 2 ^ 1023) (hzero : n ≠ 0) :
    Fits 971 (UnpackedFloat.ofScientific .binary64 n 0) := by
  have hbits : (Format.binary64.mantissaBits : ℤ) = 53 := rfl
  have hsmall : ¬ (0 : ℤ) < -((2 ^ Format.binary64.exponentBits : ℤ) + n.log2) := by
    show ¬ (0 : ℤ) < -((2 ^ 11 : ℤ) + n.log2)
    omega
  have ht := totalExponent_le _ (-53 + 0) (shiftLeft_lt 53 h) (by norm_num)
  rw [UnpackedFloat.ofScientific, dif_neg hzero, if_neg (by decide), if_neg hsmall, if_pos le_rfl,
    UnpackedFloat.mul, Int.toNat_zero, pow_zero, mul_one, hbits]
  exact fits_of_totalExponent_le _ _ _ .exact (k := 970) (by norm_num) (by norm_num) ht

theorem isFinite_ofNat {n : ℕ} (h : n < 2 ^ 1023) : (Float.ofNat n).isFinite = true := by
  show (Float.ofScientific n false 0).isFinite = true
  rw [Float.ofScientific]
  split
  · rename_i hn
    have hone : Fits (-52) (Float.ofBits 0x3FF0000000000000).toModel.unpack := by
      have : (Float.ofBits 0x3FF0000000000000).toModel.unpack =
          .finite .positive (2 ^ 52) (-52) (by norm_num) := by rfl
      rw [this]
      exact .finite _ _ le_rfl
    exact ((fits_mul (fits_toFloat hn.1) hone (by norm_num)).unpack_pack (by norm_num) (by norm_num)).isFinite
  · rename_i hn
    have hzero : n ≠ 0 := by omega
    exact ((fits_ofScientific h hzero).unpack_pack (by norm_num) le_rfl).isFinite

/-- Integers of less than half the size of the largest power of two are finite doubles. -/
theorem isFinite_ofInt {n : ℤ} (h : n.natAbs < 2 ^ 1023) : (Float.ofInt n).isFinite = true := by
  cases n with
  | ofNat n => exact isFinite_ofNat h
  | negSucc n => exact isFinite_neg (isFinite_ofNat h)

section Roots

variable {m : ℕ} {e : ℤ}

/-- The exponent of a root is half that of its square, less the bits that its mantissa takes up. -/
theorem root_exponent (hm : m < 2 ^ 53) (low : -1074 ≤ e) (high : e ≤ 971) :
    min (e.ediv 2) (Format.binary64.targetExponent ((totalExponent m e + 1).ediv 2)) =
      (totalExponent m e + 1) / 2 - 53 := by
  have hb : (Format.binary64.mantissaBits : ℤ) = 53 := rfl
  have he : Format.binary64.minExponent = -1074 := rfl
  have ht := totalExponent_le m e hm (by norm_num)
  have ht' : 1 + e ≤ totalExponent m e := by
    rw [totalExponent]
    omega
  show min (e / 2) (max ((totalExponent m e + 1) / 2 - (Format.binary64.mantissaBits : ℤ)) _) = _
  rw [hb, he]
  push_cast at ht
  omega

/-- A root in the highest binade is not rounded up to a power of two. -/
theorem round_root_lt {n : ℕ} (h : n ≤ (2 ^ 53 - 1) * 2 ^ 53) :
    Accuracy.roundToNearestEven n.sqrt (if n - n.sqrt * n.sqrt = 0 then .exact
      else .inexact (if n - n.sqrt * n.sqrt ≤ n.sqrt then .lt else .gt)) < 2 ^ 53 := by
  have hroot : n.sqrt < 2 ^ 53 := Nat.sqrt_lt.2 (h.trans_lt (by norm_num))
  by_cases hexact : n - n.sqrt * n.sqrt = 0
  · rw [if_pos hexact]
    exact hroot
  · rw [if_neg hexact]
    by_cases hbelow : n - n.sqrt * n.sqrt ≤ n.sqrt
    · rw [if_pos hbelow]
      exact hroot
    · rw [if_neg hbelow]
      show n.sqrt + 1 < 2 ^ 53
      by_contra htop
      -- The remainder under the largest root is at most that root.
      have htop : n.sqrt = 2 ^ 53 - 1 := by omega
      rw [htop] at hbelow
      omega

theorem root_lt (hm : m < 2 ^ 53) {t : ℤ} (ht : t = (totalExponent m e + 1) / 2 - 53) :
    (m <<< (e - 2 * t).toNat).sqrt < 2 ^ 53 := by
  have hsize := totalExponent_le m e hm (by norm_num)
  have hpos : e ≤ totalExponent m e := by
    rw [totalExponent]
    omega
  have hlt := lt_two_pow_totalExponent m e (n := (totalExponent m e - e).toNat) le_rfl (by omega)
  have hshift := shiftLeft_lt (e - 2 * t).toNat hlt
  push_cast at hsize
  have hbits : (totalExponent m e - e).toNat + (e - 2 * t).toNat ≤ 106 := by omega
  have := hshift.trans_le (Nat.pow_le_pow_right two_pos hbits)
  exact Nat.sqrt_lt.2 (this.trans_eq (by norm_num))

theorem fits_sqrt (hm : m < 2 ^ 53) (low : -1074 ≤ e) (high : e ≤ 971) (pos : 0 < m) :
    Fits 459 (sqrt .binary64 (.finite .positive m e pos)) := by
  rw [UnpackedFloat.sqrt, sqrtCore]
  simp only [root_exponent hm low high]
  generalize ht : (totalExponent m e + 1) / 2 - 53 = t
  have hroot := root_lt hm ht.symm
  have hsize := totalExponent_le m e hm (by norm_num)
  have hlast := totalExponent_le _ t hroot (by norm_num)
  push_cast at hsize hlast
  by_cases htop : t = 459
  · have hfirst : firstExponent (m <<< (e - 2 * t).toNat).sqrt t = t :=
      max_eq_left (targetExponent_le_iff.2 ⟨by omega, by omega⟩)
    have hradicand : m <<< (e - 2 * t).toNat ≤ (2 ^ 53 - 1) * 2 ^ 53 := by
      rw [Nat.shiftLeft_eq]
      exact Nat.mul_le_mul (by omega) (Nat.pow_le_pow_right two_pos (by omega))
    have hrounded := totalExponent_le _ t (round_root_lt hradicand) (by norm_num)
    push_cast at hrounded
    refine fits_roundWithAccuracy _ _ _ _ (by norm_num) (by omega) ?_
    rw [firstMantissa_of_fits _ _ _ hfirst, hfirst]
    omega
  · exact fits_of_totalExponent_le _ _ _ _ (k := 458) (by norm_num) (by omega) (by omega)

end Roots

/-- The square of the largest mantissa leaves room for rounding once its lower half is cut off. -/
theorem fits_square {m : ℕ} {e : ℤ} (s : Sign) (hm : m < 2 ^ 53) (high : e ≤ 459) :
    Fits 971 (roundWithAccuracy .binary64 s (m * m) (e + e) .exact) := by
  have hsquare : m * m < 2 ^ 106 := (Nat.mul_lt_mul'' hm hm).trans_eq (by norm_num)
  have ht := totalExponent_le _ (e + e) hsquare (by norm_num)
  push_cast at ht
  by_cases htop : totalExponent (m * m) (e + e) ≤ 1023
  · exact fits_of_totalExponent_le s _ _ .exact (k := 970) (by norm_num) (by omega) (by omega)
  · have he : e = 459 := by omega
    have hfirst : firstExponent (m * m) (e + e) ≤ 971 :=
      max_le (by omega) (targetExponent_le_iff.2 ⟨by omega, by norm_num⟩)
    have hshift : firstExponent (m * m) (e + e) - (e + e) = 53 := by
      have := totalExponent_le_firstExponent (m * m) (e + e)
      omega
    have hmantissa : firstMantissa (m * m) (e + e) .exact < 2 ^ 53 := by
      have hle := firstMantissa_le (m * m) (e + e) .exact
      rw [hshift] at hle
      have hdiv : m * m / 2 ^ 53 < 2 ^ 53 - 1 := by
        rw [Nat.div_lt_iff_lt_mul (by positivity)]
        exact (Nat.mul_le_mul (Nat.le_pred_of_lt hm) (Nat.le_pred_of_lt hm)).trans_lt (by norm_num)
      exact lt_of_le_of_lt hle (Nat.add_lt_of_lt_sub hdiv)
    have hlast := totalExponent_le _ (firstExponent (m * m) (e + e)) hmantissa (by norm_num)
    push_cast at hlast
    exact fits_roundWithAccuracy s _ _ .exact (by norm_num) hfirst (by omega)

/-- A root that is finite has a square. -/
theorem isFinite_square_sqrt {x : Float} (h : x.sqrt.isFinite = true) :
    (x.sqrt * x.sqrt).isFinite = true := by
  have hroot : Fits 459 x.sqrt.toModel.unpack := by
    have hdef : x.sqrt.toModel = Float.Model.pack (UnpackedFloat.sqrt .binary64 x.toModel.unpack) := rfl
    have hfinite : x.sqrt.toModel.unpack.isFinite = true := h
    have hnone : ¬ (Float.Model.pack .notANumber).unpack.isFinite = true := by decide
    rw [hdef] at hfinite ⊢
    cases hx : x.toModel.unpack with
    | finite s m e hm =>
      cases s with
      | positive =>
        obtain ⟨hlt, low, high⟩ := unpack_bounds hx
        exact (fits_sqrt hlt low high hm).unpack_pack (by norm_num) (by norm_num)
      | negative =>
        rw [hx] at hfinite
        exact absurd hfinite hnone
    | zero s => exact (Fits.zero s).unpack_pack (by norm_num) (by norm_num)
    | infinity s =>
      rw [hx] at hfinite
      cases s <;> exact absurd hfinite (by decide)
    | notANumber =>
      rw [hx] at hfinite
      exact absurd hfinite hnone
  have hsquare : Fits 971 (mul .binary64 x.sqrt.toModel.unpack x.sqrt.toModel.unpack) := by
    generalize hu : x.sqrt.toModel.unpack = u at hroot
    cases hroot with
    | zero s => exact .zero _
    | finite s hm he => exact fits_square _ (unpack_bounds hu).1 he
  exact (hsquare.unpack_pack (by norm_num) le_rfl).isFinite

end InlineImpact.Decimal
