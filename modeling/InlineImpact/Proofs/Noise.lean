import InlineImpact.Proofs.Decimal.Order
import InlineImpact.Proofs.Estimate

/-!
Noise and runs without samples. To the comparison of two runs a run without samples is a run with one
sample, zero; so two runs of which nothing is known cannot be told from each other.
-/
namespace InlineImpact

open Float.Model (UnpackedFloat)

namespace Decimal

/-- One of the two zeros. -/
def IsZero (x : Float) : Prop := ∃ s, x.toModel.unpack = .zero s

variable {x y : Float}

theorem isZero_zero : IsZero 0.0 := ⟨.positive, rfl⟩

theorem isZero_mul (hx : x.isFinite = true) (hy : IsZero y) : IsZero (x * y) := by
  obtain ⟨s, hs⟩ := hy
  have hmul : ∃ s', UnpackedFloat.mul .binary64 x.toModel.unpack y.toModel.unpack = .zero s' := by
    have hfits := fits_unpack hx
    rw [hs]
    generalize x.toModel.unpack = u at hfits
    cases hfits with
    | zero s' => exact ⟨_, rfl⟩
    | finite s' hm h => exact ⟨_, rfl⟩
  obtain ⟨s', hs'⟩ := hmul
  refine ⟨s', ?_⟩
  show (Float.Model.pack (UnpackedFloat.mul .binary64 x.toModel.unpack y.toModel.unpack)).unpack = _
  rw [hs']
  exact UnpackedFloat.unpack_packedZero

theorem IsZero.le (hx : IsZero x) (hy : IsZero y) : x ≤ y := by
  obtain ⟨s, hs⟩ := hx
  obtain ⟨s', hs'⟩ := hy
  rw [le_iff_compare, hs, hs']
  exact .inr rfl

end Decimal

theorem isZero_larger {x y : Float} (hx : Decimal.IsZero x) (hy : Decimal.IsZero y) :
    Decimal.IsZero (larger x y) := by
  unfold larger
  split
  · exact hy
  · exact hx

namespace Measurement

/-- The run, with a single sample of zero if it has none. -/
def filled (m : Measurement) : Measurement := if m.samples.isEmpty then { m with samples := [0.0] } else m

variable (m : Measurement)

theorem filled_of_ne_nil {m : Measurement} (h : m.samples ≠ []) : m.filled = m :=
  if_neg (by simpa using h)

theorem filled_of_eq_nil {m : Measurement} (h : m.samples = []) : m.filled = { m with samples := [0.0] } :=
  if_pos (by simpa using h)

theorem mean_of_eq_nil {m : Measurement} (h : m.samples = []) : m.mean = 0.0 := if_pos (by simpa using h)

@[simp] theorem mean_filled : m.filled.mean = m.mean := by
  by_cases h : m.samples = []
  · have hone : Statistics.mean [0.0] = 0.0 := by
      rw [Statistics.mean, Statistics.pairwiseSum]
      rfl
    rw [filled_of_eq_nil h, mean_of_eq_nil h]
    exact hone
  · rw [filled_of_ne_nil h]

end Measurement

namespace Estimate

/-- One sample does not vary either. -/
theorem meanVariance_of_size_lt {m : Measurement} (h : m.size < 2) : meanVariance m = .ok 0.0 := by
  have hcount : max m.size 1 = 1 := by omega
  rw [meanVariance, Measurement.deviation, if_pos h, hcount]
  rfl

theorem meanVariance_of_eq_nil {m : Measurement} (h : m.samples = []) : meanVariance m = .ok 0.0 :=
  meanVariance_of_size_lt (by simp [Measurement.size, h])

@[simp] theorem meanVariance_filled (m : Measurement) : meanVariance m.filled = meanVariance m := by
  by_cases h : m.samples = []
  · have hone : m.filled.size < 2 := by simp [Measurement.filled_of_eq_nil h, Measurement.size]
    rw [meanVariance_of_eq_nil h, meanVariance_of_size_lt hone]
  · rw [Measurement.filled_of_ne_nil h]

@[simp] theorem standardError_filled (a b : Measurement) :
    standardError a.filled b.filled = standardError a b := by
  simp only [standardError, meanVariance_filled]

end Estimate

/-- Whether there is noise does not depend on whether nothing was measured, or a single zero. -/
theorem isNoise_filled (threshold sigmas : Float) (empty full : Measurement) :
    isNoise threshold sigmas empty.filled full.filled = isNoise threshold sigmas empty full := by
  simp only [isNoise, Measurement.mean_filled, Estimate.standardError_filled]

/-- Nothing beside nothing is noise by any measure. -/
theorem isNoise_of_eq_nil {threshold sigmas : Float} (hthreshold : threshold.isFinite = true)
    (hsigmas : sigmas.isFinite = true) {empty full : Measurement} (hempty : empty.samples = [])
    (hfull : full.samples = []) : isNoise threshold sigmas empty full = .ok true := by
  have herror : Estimate.standardError empty full = .ok 0.0 := by
    rw [Estimate.standardError, Estimate.meanVariance_of_eq_nil hempty, Estimate.meanVariance_of_eq_nil hfull]
    rfl
  have hbound : Decimal.IsZero (larger (threshold * (0.0 : Float).abs) (sigmas * 0.0)) :=
    isZero_larger (Decimal.isZero_mul hthreshold Decimal.isZero_zero) (Decimal.isZero_mul hsigmas Decimal.isZero_zero)
  have hdelta : Decimal.IsZero ((0.0 : Float) - 0.0).abs := Decimal.isZero_zero
  rw [isNoise, herror, Measurement.mean_of_eq_nil hempty, Measurement.mean_of_eq_nil hfull]
  exact congrArg Except.ok (decide_eq_true (hdelta.le hbound))

end InlineImpact
