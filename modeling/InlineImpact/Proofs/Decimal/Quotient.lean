import InlineImpact.Proofs.Decimal.Range

/-!
Quotients by whole numbers. The double next to a positive integer has a full mantissa, or else it is beyond
all bounds; it is never less than one. What is divided by it does not grow, so the mean of samples whose
sum is finite is finite, and the difference of two such means is a number.
-/
namespace InlineImpact.Decimal

open Float.Model (UnpackedFloat Format totalExponent)
open Float.Model.UnpackedFloat

/-- A number with a full mantissa and an exponent of at least `k`; it may be infinite. -/
inductive Full (s : Sign) (k : ℤ) : UnpackedFloat → Prop
  | infinity : Full s k (.infinity s)
  | finite {m : ℕ} {e : ℤ} (low : 2 ^ 52 ≤ m) (high : m < 2 ^ 53) (he : k ≤ e) (hm : 0 < m) :
      Full s k (.finite s m e hm)

section Rounding

variable {m : ℕ} {e k : ℤ}

theorem targetExponent_of_le {t : ℤ} (h : -1021 ≤ t) : Format.binary64.targetExponent t = t - 53 := by
  have hb : (Format.binary64.mantissaBits : ℤ) = 53 := rfl
  have he : Format.binary64.minExponent = -1074 := rfl
  rw [Format.targetExponent, hb, he, max_eq_left (by omega)]

theorem le_roundedMantissa (em : ExtendedMantissa) : em.mantissa ≤ em.roundedMantissa := by
  rw [ExtendedMantissa.roundedMantissa]
  rcases em.accuracy with _ | _ | _ | _ <;> simp only [Accuracy.roundToNearestEven] <;> omega

theorem le_firstMantissa (m : ℕ) (e : ℤ) (accuracy : Accuracy) :
    m / 2 ^ (firstExponent m e - e).toNat ≤ firstMantissa m e accuracy := by
  refine le_trans (le_of_eq ?_) (le_roundedMantissa _)
  rw [mantissa_shiftRight]
  rcases accuracy with _ | _ | _ | _ <;> rfl

/-- A mantissa of at least 53 bits, without those that are too many. -/
theorem div_log2_bounds (hm : 2 ^ 52 ≤ m) : 2 ^ 52 ≤ m / 2 ^ (m.log2 - 52) ∧ m / 2 ^ (m.log2 - 52) < 2 ^ 53 := by
  have hne : m ≠ 0 := by omega
  have hlog : 52 ≤ m.log2 := (Nat.le_log2 hne).2 hm
  constructor
  · rw [Nat.le_div_iff_mul_le (by positivity), ← pow_add, Nat.add_sub_cancel' hlog]
    exact Nat.log2_self_le hne
  · rw [Nat.div_lt_iff_lt_mul (by positivity), ← pow_add]
    exact Nat.lt_log2_self.trans_eq (congrArg (2 ^ ·) (by omega))

theorem firstExponent_of_full (hm : 2 ^ 52 ≤ m) (low : -1074 ≤ e) :
    firstExponent m e = totalExponent m e - 53 := by
  have hlog : 52 ≤ m.log2 := (Nat.le_log2 (by omega)).2 hm
  have htotal : totalExponent m e = m.log2 + 1 + e := rfl
  rw [firstExponent, targetExponent_of_le (by omega), max_eq_right (by omega)]

/-- The first shift leaves 53 bits, and rounding takes none of them. -/
theorem le_firstMantissa_of_full (accuracy : Accuracy) (hm : 2 ^ 52 ≤ m) (low : -1074 ≤ e) :
    2 ^ 52 ≤ firstMantissa m e accuracy := by
  have htotal : totalExponent m e = m.log2 + 1 + e := rfl
  have hfirst := firstExponent_of_full hm low
  have hshift : (firstExponent m e - e).toNat = m.log2 - 52 := by omega
  have hge := le_firstMantissa m e accuracy
  rw [hshift] at hge
  exact (div_log2_bounds hm).1.trans hge

/-- The second shift takes the bits that are too many. -/
theorem mantissa_shiftRight_bounds (hm : 2 ^ 52 ≤ m) (low : -1074 ≤ e) :
    let shifted := ExtendedMantissa.ofMantissaAndAccuracy m .exact >>> (firstExponent m e - e).toNat
    2 ^ 52 ≤ shifted.mantissa ∧ shifted.mantissa < 2 ^ 53 := by
  have htotal : totalExponent m e = m.log2 + 1 + e := rfl
  have hfirst := firstExponent_of_full hm low
  have hshift : (firstExponent m e - e).toNat = m.log2 - 52 := by omega
  dsimp only
  rw [mantissa_shiftRight, hshift]
  exact div_log2_bounds hm

/-- Rounding fills the mantissa and keeps the size. -/
theorem full_roundWithAccuracy (s : Sign) (accuracy : Accuracy) (hm : 2 ^ 52 ≤ m) (low : -1074 ≤ e)
    (hk : k + 53 ≤ totalExponent m e) : Full s k (roundWithAccuracy .binary64 s m e accuracy) := by
  have hfirst := firstExponent_of_full hm low
  have hrounded := le_firstMantissa_of_full accuracy hm low
  obtain ⟨hlow, hhigh⟩ := mantissa_shiftRight_bounds hrounded (low.trans (le_firstExponent m e))
  have hexponent : k ≤ firstExponent (firstMantissa m e accuracy) (firstExponent m e) := by
    have := le_firstExponent (firstMantissa m e accuracy) (firstExponent m e)
    omega
  rw [roundWithAccuracy, shiftToTargetExponent_eq]
  simp only [shiftToTargetExponent_eq]
  split
  · rename_i hzero
    exact absurd (hlow.trans_eq hzero) (by norm_num)
  · exact .finite hlow hhigh hexponent _

end Rounding

section Packing

variable {s : Sign} {k : ℤ} {u : UnpackedFloat}

theorem unpack_packedInfinity (s : Sign) :
    unpack .binary64 (packedInfinity .binary64 s) = .infinity s := by
  cases s <;> rfl

theorem unpackSign_packComponents (s : Sign) (exponent : BitVec 11) (mantissa : BitVec 52) :
    Sign.ofBitVec (@unpackSign .binary64 (packComponents .binary64 s exponent mantissa)) = s := by
  simp only [unpackSign, packComponents, BitVec.extractLsb]
  rw [BitVec.extractLsb'_append_eq_of_le (by decide), BitVec.extractLsb'_append_eq_of_le (by decide)]
  cases s <;> rfl

/-- A full mantissa is not changed by packing, if its exponent is in range. -/
theorem unpack_pack_of_full (s : Sign) {m : ℕ} {e : ℤ} (hm : 0 < m) (hlow : 2 ^ 52 ≤ m) (hhigh : m < 2 ^ 53)
    (low : -1074 ≤ e) (high : e ≤ 971) :
    unpack .binary64 (pack .binary64 (.finite s m e hm)) = .finite s m e hm := by
  have hbias : (Format.binary64.exponentBias : ℤ) = 1023 := rfl
  have hbits : (Format.binary64.mantissaBitsWithoutImplicit : ℤ) = 52 := rfl
  have hlog : m.log2 + 1 = Format.binary64.mantissaBits :=
    congrArg (· + 1) ((Nat.log2_eq_iff hm.ne').2 ⟨hlow, hhigh⟩)
  have hexponent : (e + 1023 + 52).toNat < 2047 ∧ 0 < (e + 1023 + 52).toNat := by omega
  have hnat : (BitVec.ofNat 11 (e + 1023 + 52).toNat).toNat = (e + 1023 + 52).toNat := by
    rw [BitVec.toNat_ofNat, Nat.mod_eq_of_lt (by omega)]
  have htop : BitVec.ofNat 11 (e + 1023 + 52).toNat ≠ -1#11 := by
    rw [BitVec.toNat_ne, hnat]
    exact ne_of_lt (hexponent.1.trans_eq (by decide))
  have hzero : BitVec.ofNat 11 (e + 1023 + 52).toNat ≠ 0#11 := by
    rw [BitVec.toNat_ne, hnat]
    exact ne_of_gt hexponent.2
  have hmantissa : (1#1 ++ BitVec.ofNat 52 m).toNat = m := by
    rw [BitVec.toNat_append, ← Nat.shiftLeft_add_eq_or_of_lt (BitVec.isLt _), Nat.shiftLeft_eq]
    simp
    omega
  rw [pack]
  simp only [hbias, hbits]
  rw [if_neg (by show ¬ 2048 ≤ _; omega), if_pos hlog, unpack]
  simp only [unpackMantissa_packComponents, unpackExponent_packComponents, unpackSign_packComponents, htop, hzero,
    if_false, hnat, hmantissa, hbias, hbits]
  congr 1
  omega

theorem pack_of_large (s : Sign) {m : ℕ} {e : ℤ} (hm : 0 < m) (h : 971 < e) :
    pack .binary64 (.finite s m e hm) = packedInfinity .binary64 s := by
  have hbias : (Format.binary64.exponentBias : ℤ) = 1023 := rfl
  have hbits : (Format.binary64.mantissaBitsWithoutImplicit : ℤ) = 52 := rfl
  rw [pack]
  simp only [hbias, hbits]
  exact if_pos (by show 2048 ≤ _; omega)

theorem Full.unpack_pack (h : Full s k u) (low : -1074 ≤ k) : Full s k (Float.Model.pack u).unpack := by
  show Full s k (unpack .binary64 (pack .binary64 u))
  cases h with
  | infinity =>
    rw [pack, unpack_packedInfinity]
    exact .infinity
  | @finite m e hlow hhigh he hm =>
    rcases lt_or_ge 971 e with hlarge | hle
    · rw [pack_of_large _ hm hlarge, unpack_packedInfinity]
      exact .infinity
    · rw [unpack_pack_of_full _ hm hlow hhigh (low.trans he) hle]
      exact .finite hlow hhigh he hm

theorem Full.neg (h : Full s k u) : Full (-s) k u.neg := by
  cases h with
  | infinity => exact .infinity
  | finite hlow hhigh he hm => exact .finite hlow hhigh he hm

/-- What is a number is still one when it is packed. -/
theorem isNaN_unpack_pack (h : u.isNaN = false) : (Float.Model.pack u).unpack.isNaN = false := by
  show (unpack .binary64 (pack .binary64 u)).isNaN = false
  cases u with
  | notANumber => cases h
  | infinity s =>
    rw [pack, unpack_packedInfinity]
    rfl
  | zero s =>
    rw [pack, unpack_packedZero]
    rfl
  | finite s m e hm =>
    rcases lt_or_ge 971 e with hlarge | hle
    · rw [pack_of_large _ hm hlarge, unpack_packedInfinity]
      rfl
    · have hfits := (Fits.finite s hm (le_max_left e (-1074))).unpack_pack (le_max_right _ _) (by omega)
      have hfits : Fits (max e (-1074)) (unpack .binary64 (pack .binary64 (.finite s m e hm))) := hfits
      generalize unpack .binary64 (pack .binary64 (.finite s m e hm)) = v at hfits
      cases hfits <;> rfl

end Packing

section Integers

theorem toNat_toUInt64 {n : ℕ} (h : n < 2 ^ 53) : n.toUInt64.toNat = n := by
  rw [Nat.toUInt64_eq, UInt64.toNat_ofNat']
  exact Nat.mod_eq_of_lt (h.trans (by norm_num))

/-- A positive integer that a mantissa can hold fills one. -/
theorem full_toFloat {n : ℕ} (hpos : 0 < n) (h : n < 2 ^ 53) :
    Full .positive (n.log2 - 52) n.toUInt64.toFloat.toModel.unpack := by
  have hlog : n.log2 < 53 := (Nat.log2_lt hpos.ne').2 h
  have hnormal : Full .positive (n.log2 - 52)
      (UnpackedFloat.normalize .binary64 (n.toUInt64.toNat : ℤ) 0 .positive) := by
    have htarget : Format.binary64.targetExponent (totalExponent n 0) = n.log2 - 52 := by
      rw [totalExponent, targetExponent_of_le (by omega)]
      omega
    have hshift : ((0 : ℤ) - (n.log2 - 52)).toNat = 52 - n.log2 := by omega
    have hlow : 2 ^ 52 ≤ n <<< (52 - n.log2) := by
      rw [Nat.shiftLeft_eq]
      calc 2 ^ 52 = 2 ^ n.log2 * 2 ^ (52 - n.log2) := by rw [← pow_add, Nat.add_sub_cancel' (by omega)]
        _ ≤ n * 2 ^ (52 - n.log2) := Nat.mul_le_mul_right _ (Nat.log2_self_le hpos.ne')
    have hlog' : 52 ≤ (n <<< (52 - n.log2)).log2 := (Nat.le_log2 (by omega)).2 hlow
    rw [toNat_toUInt64 h, UnpackedFloat.normalize]
    simp only [Int.compare_eq_gt.2 (Int.natCast_pos.2 hpos), Int.toNat_natCast, UnpackedFloat.round, htarget,
      decreaseExponent, hshift]
    refine full_roundWithAccuracy .positive .exact hlow (by omega) ?_
    rw [totalExponent]
    omega
  exact hnormal.unpack_pack (by omega)

theorem full_mul_one {k : ℤ} {u : UnpackedFloat} (h : Full .positive k u) (low : -1022 ≤ k) :
    Full .positive k (mul .binary64 u (.finite .positive (2 ^ 52) (-52) (by norm_num))) := by
  cases h with
  | infinity => exact .infinity
  | @finite m e hlow hhigh he hm =>
    have hprod : 2 ^ 104 ≤ m * 2 ^ 52 := (Nat.mul_le_mul_right _ hlow).trans_eq' (by norm_num)
    have hlog : 104 ≤ (m * 2 ^ 52).log2 := (Nat.le_log2 (by omega)).2 hprod
    refine full_roundWithAccuracy .positive .exact (by omega) (by omega) ?_
    rw [totalExponent]
    omega

theorem full_ofScientific {n : ℕ} (hpos : 0 < n) :
    Full .positive (n.log2 - 52) (UnpackedFloat.ofScientific .binary64 n 0) := by
  have hbits : (Format.binary64.mantissaBits : ℤ) = 53 := rfl
  have hsmall : ¬ (0 : ℤ) < -((2 ^ Format.binary64.exponentBits : ℤ) + n.log2) := by
    show ¬ (0 : ℤ) < -((2 ^ 11 : ℤ) + n.log2)
    omega
  have hlow : 2 ^ (n.log2 + 53) ≤ n <<< 53 := by
    rw [Nat.shiftLeft_eq, pow_add]
    exact Nat.mul_le_mul_right _ (Nat.log2_self_le hpos.ne')
  have hne : n <<< 53 ≠ 0 := by
    have : 0 < 2 ^ (n.log2 + 53) := by positivity
    omega
  have hlog : n.log2 + 53 ≤ (n <<< 53).log2 := (Nat.le_log2 hne).2 hlow
  rw [UnpackedFloat.ofScientific, dif_neg hpos.ne', if_neg (by decide), if_neg hsmall, if_pos le_rfl,
    UnpackedFloat.mul, Int.toNat_zero, pow_zero, mul_one, hbits]
  refine full_roundWithAccuracy .positive .exact ?_ (by norm_num) ?_
  · exact (Nat.pow_le_pow_right two_pos (by omega)).trans hlow
  · show _ ≤ ((n <<< 53).log2 : ℤ) + 1 + (-53 + 0)
    omega

/-- The double next to a positive integer is not less than the power of two below it. -/
theorem full_ofNat {n : ℕ} (hpos : 0 < n) : Full .positive (n.log2 - 52) (Float.ofNat n).toModel.unpack := by
  show Full .positive _ (Float.ofScientific n false 0).toModel.unpack
  rw [Float.ofScientific]
  split
  · rename_i hn
    have hone : (Float.ofBits 0x3FF0000000000000).toModel.unpack =
        .finite .positive (2 ^ 52) (-52) (by norm_num) := by rfl
    have hmul := full_mul_one (full_toFloat hpos hn.1) (by omega)
    rw [← hone] at hmul
    exact hmul.unpack_pack (by omega)
  · exact (full_ofScientific hpos).unpack_pack (by omega)

/-- An integer that is not zero is no zero as a double. -/
theorem full_ofInt {n : ℤ} (h : n ≠ 0) : ∃ s, Full s (n.natAbs.log2 - 52) (Float.ofInt n).toModel.unpack := by
  cases n with
  | ofNat n => exact ⟨.positive, full_ofNat (Nat.pos_of_ne_zero fun hn => h (congrArg Int.ofNat hn))⟩
  | negSucc n => exact ⟨.negative, (full_ofNat n.succ_pos).neg.unpack_pack (by simp; omega)⟩

end Integers

section Quotients

variable {m n : ℕ} {e k : ℤ}

/-- A quotient of less than half the largest power of two. -/
theorem fits_divCore (s : Sign) (hn : 2 ^ 52 ≤ n) (h : totalExponent m e ≤ 1075 + k) :
    let q := divCore .binary64 m e n k
    Fits 971 (roundWithAccuracy .binary64 s q.1 q.2.1 q.2.2) := by
  have hlog : 52 ≤ n.log2 := (Nat.le_log2 (by omega)).2 hn
  have hm : totalExponent m e = m.log2 + 1 + e := rfl
  have hk : totalExponent n k = n.log2 + 1 + k := rfl
  dsimp only [divCore]
  generalize ht : min (e - k) (Format.binary64.targetExponent (totalExponent m e - totalExponent n k)) = t
  have hroom : t ≤ 969 := by
    have := min_le_right (e - k) (Format.binary64.targetExponent (totalExponent m e - totalExponent n k))
    have : Format.binary64.targetExponent (totalExponent m e - totalExponent n k) ≤ 969 :=
      targetExponent_le_iff.2 (by omega)
    omega
  have hle : t ≤ e - k := ht ▸ min_le_left _ _
  -- The divisor takes at least as many bits as the quotient may have too many.
  have hquotient : m <<< (e - k - t).toNat / n < 2 ^ (1023 - t).toNat := by
    rw [Nat.div_lt_iff_lt_mul (by omega)]
    calc m <<< (e - k - t).toNat < 2 ^ (m.log2 + 1 + (e - k - t).toNat) := shiftLeft_lt _ Nat.lt_log2_self
      _ ≤ 2 ^ ((1023 - t).toNat + 52) := Nat.pow_le_pow_right two_pos (by omega)
      _ = 2 ^ (1023 - t).toNat * 2 ^ 52 := pow_add _ _ _
      _ ≤ 2 ^ (1023 - t).toNat * n := Nat.mul_le_mul_left _ hn
  have htotal := totalExponent_le _ t hquotient (by omega)
  exact fits_of_totalExponent_le s _ t _ (k := 970) (by norm_num) (by omega) (by omega)

/-- Division by one keeps the largest doubles. -/
theorem fits_divCore_one (s : Sign) (hm : m < 2 ^ 53) (he : e ≤ 971) (htop : totalExponent m e = 1024) :
    let q := divCore .binary64 m e (2 ^ 52) (-52)
    Fits 971 (roundWithAccuracy .binary64 s q.1 q.2.1 q.2.2) := by
  have hbelow := totalExponent_le m e hm (by norm_num)
  obtain rfl : e = 971 := by omega
  have hone : totalExponent (2 ^ 52) (-52) = 1 := by decide
  have htarget : min (971 - -52) (Format.binary64.targetExponent (1024 - 1)) = 970 := by decide
  have hquotient : divCore .binary64 m 971 (2 ^ 52) (-52) = (2 * m, 970, .exact) := by
    rw [divCore, htop, hone, htarget]
    show (m <<< 53 / 2 ^ 52, (970 : ℤ), accuracyOfFraction (m <<< 53 % 2 ^ 52) (2 ^ 52)) = _
    have hwhole : m <<< 53 / 2 ^ 52 = 2 * m ∧ m <<< 53 % 2 ^ 52 = 0 := by
      rw [Nat.shiftLeft_eq]
      omega
    rw [hwhole.1, hwhole.2]
    rfl
  have hdouble : totalExponent (2 * m) 970 = 1024 := by
    rw [totalExponent] at htop ⊢
    rw [Nat.log2_two_mul (by rintro rfl; cases htop)]
    omega
  have hfirst : firstExponent (2 * m) 970 = 971 := by
    rw [firstExponent, hdouble]
    decide
  have hmantissa : firstMantissa (2 * m) 970 .exact = m := by
    rw [firstMantissa, hfirst]
    show (ExtendedMantissa.shiftRightOne ⟨2 * m, false, false⟩).roundedMantissa = m
    simp [ExtendedMantissa.shiftRightOne, ExtendedMantissa.roundedMantissa, ExtendedMantissa.accuracy,
      Accuracy.roundToNearestEven]
  rw [hquotient]
  refine fits_roundWithAccuracy s _ _ .exact (by norm_num) hfirst.le ?_
  rw [hmantissa, hfirst, htop]
  norm_num

variable {x y : Float}

/-- What is divided by a positive integer stays finite. -/
theorem isFinite_div_ofNat (hx : x.isFinite = true) (hpos : 0 < n) : (x / Float.ofNat n).isFinite = true := by
  have hfits : Fits 971 (div .binary64 x.toModel.unpack (Float.ofNat n).toModel.unpack) := by
    have hdividend := fits_unpack hx
    generalize hu : x.toModel.unpack = u at hdividend
    have hdivisor := full_ofNat hpos
    generalize hv : (Float.ofNat n).toModel.unpack = v at hdivisor
    cases hdividend with
    | zero s => cases hdivisor <;> exact .zero _
    | @finite s m e hm he =>
      cases hdivisor with
      | infinity => exact .zero _
      | @finite m' e' hlow hhigh he' hm' =>
        obtain ⟨hlt, -, -⟩ := unpack_bounds hu
        have htotal := totalExponent_le m e hlt (by norm_num)
        by_cases hroom : totalExponent m e ≤ 1075 + e'
        · exact fits_divCore _ hlow hroom
        · obtain rfl : n = 1 := by
            have : n.log2 < 1 := by omega
            have := (Nat.log2_lt hpos.ne').1 this
            omega
          have hone : (Float.ofNat 1).toModel.unpack = .finite .positive (2 ^ 52) (-52) (by norm_num) := by rfl
          rw [hone] at hv
          cases hv
          exact fits_divCore_one _ hlt he (by omega)
  exact (hfits.unpack_pack (by norm_num) le_rfl).isFinite

theorem isFinite_zero_add (hx : x.isFinite = true) : (0.0 + x).isFinite = true := by
  have hzero : (0.0 : Float).toModel.unpack = .zero .positive := by rfl
  have hfits : Fits 971 (add .binary64 (0.0 : Float).toModel.unpack x.toModel.unpack) := by
    have hx := fits_unpack hx
    generalize x.toModel.unpack = u at hx
    rw [hzero]
    cases hx with
    | zero s => cases s <;> exact .zero _
    | finite s hm he => exact .finite s hm he
  exact (hfits.unpack_pack (by norm_num) le_rfl).isFinite

theorem isNaN_normalize (m e : ℤ) (zeroSign : Sign) :
    (UnpackedFloat.normalize .binary64 m e zeroSign).isNaN = false := by
  have hround (s : Sign) (m : ℕ) (e : ℤ) : (roundWithAccuracy .binary64 s m e .exact).isNaN = false := by
    rw [roundWithAccuracy]
    dsimp only
    split <;> rfl
  rw [UnpackedFloat.normalize]
  split
  · exact hround ..
  · rfl
  · exact hround ..

/-- The difference of finite doubles is a number, though it may be infinite. -/
theorem isNaN_sub (hx : x.isFinite = true) (hy : y.isFinite = true) : (x - y).isNaN = false := by
  have hsub : (sub .binary64 x.toModel.unpack y.toModel.unpack).isNaN = false := by
    have hx := fits_unpack hx
    have hy := fits_unpack hy
    generalize x.toModel.unpack = u at hx
    generalize y.toModel.unpack = v at hy
    cases hx with
    | zero s =>
      cases hy with
      | zero s' => cases s <;> cases s' <;> rfl
      | finite s' hm' he' => rfl
    | finite s hm he =>
      cases hy with
      | zero s' => rfl
      | finite s' hm' he' => exact isNaN_normalize ..
  exact isNaN_unpack_pack hsub

end Quotients

end InlineImpact.Decimal

namespace InlineImpact.Statistics

/-- The mean of samples whose sum is finite. -/
theorem isFinite_mean {xs : List Float} (hne : xs ≠ []) (h : (pairwiseSum xs).isFinite = true) :
    (mean xs).isFinite = true :=
  Decimal.isFinite_div_ofNat (Decimal.isFinite_zero_add h) (List.length_pos_of_ne_nil hne)

end InlineImpact.Statistics
