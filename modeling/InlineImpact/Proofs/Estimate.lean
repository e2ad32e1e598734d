import InlineImpact.Proofs.Decimal.Range
import InlineImpact.Proofs.Outcome
import InlineImpact.Estimate

/-!
Estimates are always to be had. A deviation is a root, so it can be squared; a mean over too few
samples is left out; and a count that fits a double can be divided by.
-/
namespace InlineImpact

/-- A count that is close to some double. -/
def Decimal.IsOrdinary (n : Int) : Prop := n.natAbs < 2 ^ 1023

theorem Decimal.floatOfInt?_of_isOrdinary {n : Int} (h : IsOrdinary n) :
    floatOfInt? n = some (Float.ofInt n) := by
  rw [floatOfInt?, if_pos (isFinite_ofInt h)]

theorem Decimal.isOrdinary_of_word {n : Int} (h : n.natAbs ≤ 2 ^ 64) : IsOrdinary n :=
  h.trans_lt (pow_lt_pow_right₀ (by decide) (by decide))

theorem Statistics.exists_square?_sqrt (x : Float) : ∃ v, square? x.sqrt = some v := by
  unfold square?
  split
  · exact ⟨_, rfl⟩
  · split
    · rename_i h
      rw [Bool.and_eq_true, Bool.not_eq_true'] at h
      rw [Decimal.isFinite_square_sqrt h.1] at h
      cases h.2
    · exact ⟨_, rfl⟩

namespace Measurement

/-- The calls are counted in words of sixty-four bits. -/
def CountsWords (m : Measurement) : Prop := ∀ p ∈ m.callCounts, -2 ^ 63 ≤ p.2 ∧ p.2 < 2 ^ 63

theorem CountsWords.calls {m : Measurement} (h : m.CountsWords) (method : Option MethodId) :
    (m.calls method).natAbs ≤ 2 ^ 63 := by
  cases method with
  | none => exact Nat.zero_le _
  | some id =>
    rw [Measurement.calls, Option.elim_some, callsTo]
    have hentry (key : String) : ∀ n, m.callCounts.get? key = some n → n.natAbs ≤ 2 ^ 63 := by
      intro n hn
      have := h _ (Keyed.mem_of_get? hn)
      omega
    cases htext : m.callCounts.get? id.text with
    | some n => exact hentry _ n htext
    | none =>
      cases htoken : m.callCounts.get? id.tokenText with
      | some n => exact hentry _ n htoken
      | none => exact Nat.zero_le _

end Measurement

namespace Estimate

theorem exists_share (delta : Option Float) {count : Int} (h : Decimal.IsOrdinary count) :
    ∃ x, share delta count = .ok x := by
  unfold share
  cases delta with
  | none => exact ⟨none, rfl⟩
  | some x =>
    by_cases hzero : count = 0
    · exact ⟨_, if_pos hzero⟩
    · simp only [if_neg hzero, Decimal.floatOfInt?_of_isOrdinary h]
      exact ⟨_, rfl⟩

theorem exists_meanVariance (m : Measurement) : ∃ v, meanVariance m = .ok v := by
  have hsquare : ∃ v, Statistics.square? m.deviation = some v := by
    unfold Measurement.deviation
    split
    · exact ⟨_, rfl⟩
    · exact Statistics.exists_square?_sqrt _
  obtain ⟨v, hv⟩ := hsquare
  rw [meanVariance, hv]
  exact ⟨_, rfl⟩

theorem exists_standardError (a b : Measurement) : ∃ x, standardError a b = .ok x := by
  obtain ⟨v, hv⟩ := exists_meanVariance a
  obtain ⟨w, hw⟩ := exists_meanVariance b
  rw [standardError, hv, hw]
  exact ⟨_, rfl⟩

theorem exists_bootstrapConfidence {child parent : List Float} {resamples seed minSamples : Int}
    (h : max minSamples 1 ≤ (min child.length parent.length : Int)) (hresamples : 0 ≤ resamples)
    (hseed : 0 ≤ seed) : ∃ x, bootstrapConfidence child parent resamples seed minSamples = .ok x := by
  rw [bootstrapConfidence, if_neg (Int.not_lt.2 h), if_neg (Int.not_lt.2 hseed), if_neg (Int.not_lt.2 hresamples)]
  exact ⟨_, rfl⟩

/-- What an estimate holds, by the number of samples on both sides. -/
inductive Graded (child parent : Measurement) (minSamples : Int) : Estimate → Prop
  | empty (h : child.size = 0 ∨ parent.size = 0) (callDelta rootCalls : Int) :
      Graded child parent minSamples ⟨none, none, callDelta, rootCalls, none, .lowSamples⟩
  | few (hfilled : ¬(child.size = 0 ∨ parent.size = 0))
      (h : (min child.size parent.size : Int) < max minSamples 1) (delta deviation : Float)
      (callDelta rootCalls : Int) :
      Graded child parent minSamples ⟨some delta, some deviation, callDelta, rootCalls, none, .lowSamples⟩
  | enough (hfilled : ¬(child.size = 0 ∨ parent.size = 0))
      (h : max minSamples 1 ≤ (min child.size parent.size : Int)) (delta deviation confidence : Float)
      (callDelta rootCalls : Int) :
      Graded child parent minSamples
        ⟨some delta, some deviation, callDelta, rootCalls, some confidence, .measured⟩

/-- Two runs always give an estimate. -/
theorem exists_graded (child parent : Measurement) (callee root : Option MethodId) (rootCalls : Option Int)
    {resamples seed : Int} (hresamples : 0 ≤ resamples) (hseed : 0 ≤ seed) (minSamples : Int) :
    ∃ est, ofRuns child parent callee root rootCalls resamples minSamples seed = .ok est ∧
      Graded child parent minSamples est ∧ est.callDelta = child.calls callee - parent.calls callee ∧
      est.rootCalls = rootCalls.getD (orElse (child.calls root) (parent.calls root)) := by
  unfold ofRuns
  by_cases hempty : child.size = 0 ∨ parent.size = 0
  · rw [if_pos hempty]
    exact ⟨_, rfl, .empty hempty _ _, rfl, rfl⟩
  · obtain ⟨deviation, hdeviation⟩ := exists_standardError child parent
    rw [if_neg hempty, hdeviation]
    by_cases hfew : (min child.size parent.size : Int) < max minSamples 1
    · have htooFew : bootstrapConfidence child.samples parent.samples resamples seed minSamples =
          .error (.tooFewSamples child.size parent.size minSamples) := if_pos hfew
      simp only [bind, Except.bind, htooFew]
      exact ⟨_, rfl, .few hempty hfew _ _ _ _, rfl, rfl⟩
    · have henough := Int.not_lt.1 hfew
      obtain ⟨confidence, hconfidence⟩ := exists_bootstrapConfidence henough hresamples hseed
      simp only [bind, Except.bind, hconfidence]
      exact ⟨_, rfl, .enough hempty henough _ _ _ _ _, rfl, rfl⟩

theorem exists_ofRuns (child parent : Measurement) (callee root : Option MethodId) (rootCalls : Int)
    {resamples seed : Int} (hresamples : 0 ≤ resamples) (hseed : 0 ≤ seed) (minSamples : Int) :
    ∃ est, ofRuns child parent callee root (some rootCalls) resamples minSamples seed = .ok est ∧
      est.callDelta = child.calls callee - parent.calls callee ∧ est.rootCalls = rootCalls := by
  obtain ⟨est, hest, -, hcalls, hroot⟩ :=
    exists_graded child parent callee root (some rootCalls) hresamples hseed minSamples
  exact ⟨est, hest, hcalls, hroot⟩

end Estimate

theorem exists_isNoise (threshold sigmas : Float) (empty full : Measurement) :
    ∃ b, isNoise threshold sigmas empty full = .ok b := by
  obtain ⟨error, herror⟩ := Estimate.exists_standardError empty full
  rw [isNoise, herror]
  exact ⟨_, rfl⟩

end InlineImpact
