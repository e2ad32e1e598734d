import InlineImpact.Estimate
import InlineImpact.Proofs.Decimal.Order
import InlineImpact.Proofs.Decimal.Quotient
import InlineImpact.Proofs.Random

/-!
The confidence in runs that do not vary. Whatever is drawn, the samples of such a run are drawn as they are, and
their mean is the one that was observed, also where it is rounded. So every resampling has the observed sign,
also if there is no difference.
-/
namespace InlineImpact

open InlineImpact.Random (Generator)
open Statistics (mean pairwiseSum sign proportion)

namespace Statistics

/-- All of them. -/
theorem proportion_self {n : Nat} (h : 0 < n) : proportion n n = 1.0 := by
  have hone : Float.ofNat 1 / Float.ofNat 1 = 1.0 := by decide +kernel
  rw [proportion, Nat.gcd_self, Nat.div_self h, hone]

/-- The sign of a number is itself a number. -/
theorem sign_beq_self {x : Float} (h : x.isNaN = false) : (sign x == sign x) = true := by
  have hzero : (0.0 : Float).isNaN = false := rfl
  unfold sign
  split
  · rfl
  · split
    · rfl
    · split
      · rfl
      · rename_i hgt hlt hne
        rw [gt_iff_lt, Decimal.lt_iff_rank hzero h] at hgt
        rw [Decimal.lt_iff_rank h hzero] at hlt
        rw [Decimal.beq_iff_rank h hzero] at hne
        exact absurd (le_antisymm (not_lt.1 hgt) (not_lt.1 hlt)) hne

end Statistics

namespace Estimate

variable {c p : Float} {n m : Nat}

/-- All resamplings of samples that are all the same agree with what was observed. -/
theorem agreement_replicate (hn : 0 < n) (hm : 0 < m) {resamples : Nat} (hresamples : 0 < resamples) (seed : Nat)
    (h : (mean (List.replicate n c) - mean (List.replicate m p)).isNaN = false) :
    agreement (List.replicate n c) (List.replicate m p) resamples seed = 1.0 := by
  obtain ⟨hchild, hnext⟩ := (Generator.holdsWord_ofSeed seed).resampledMeans_replicate hn mean c resamples
  obtain ⟨hparent, -⟩ := hnext.resampledMeans_replicate hm mean p resamples
  rw [agreement]
  dsimp only
  rw [hchild, hparent, List.zip_replicate', List.countP_replicate, if_pos (Statistics.sign_beq_self h)]
  exact Statistics.proportion_self hresamples

/-- Two runs, each of one value that is repeated, have full confidence whatever is drawn, if the sums of the
samples are finite. -/
theorem bootstrapConfidence_replicate {resamples seed minSamples : Int} (hn : max minSamples 1 ≤ n)
    (hm : max minSamples 1 ≤ m) (hresamples : 1 ≤ resamples) (hseed : 0 ≤ seed)
    (hc : (pairwiseSum (List.replicate n c)).isFinite = true)
    (hp : (pairwiseSum (List.replicate m p)).isFinite = true) :
    bootstrapConfidence (List.replicate n c) (List.replicate m p) resamples seed minSamples = .ok 1.0 := by
  have hn' : 0 < n := by omega
  have hm' : 0 < m := by omega
  have hne (x : Float) {k : Nat} (hk : 0 < k) : List.replicate k x ≠ [] := by simpa using hk.ne'
  have hchild := Statistics.isFinite_mean (hne c hn') hc
  have hparent := Statistics.isFinite_mean (hne p hm') hp
  have hrows : 0 < resamples.toNat := by omega
  have hagree := agreement_replicate hn' hm' hrows seed.toNat (Decimal.isNaN_sub hchild hparent)
  rw [bootstrapConfidence, List.length_replicate, List.length_replicate, if_neg (by omega),
    if_neg (Int.not_lt.2 hseed), if_neg (by omega), hagree]

/-- One tenth, three times and once. The mean of three is rounded, so the observed difference is not zero. -/
theorem bootstrapConfidence_tenths :
    (pairwiseSum (List.replicate 3 0.1)).isFinite = true ∧ (pairwiseSum (List.replicate 1 0.1)).isFinite = true ∧
      (mean (List.replicate 3 0.1) == 0.1) = false ∧
      bootstrapConfidence (List.replicate 3 0.1) (List.replicate 1 0.1) 1000 0 (-2) = .ok 1.0 := by
  have hthree : (pairwiseSum (List.replicate 3 0.1)).isFinite = true := by
    rw [pairwiseSum]
    rfl
  have hone : (pairwiseSum (List.replicate 1 0.1)).isFinite = true := by
    rw [pairwiseSum]
    rfl
  have hrounded : (mean (List.replicate 3 0.1) == 0.1) = false := by
    rw [mean, pairwiseSum]
    rfl
  exact ⟨hthree, hone, hrounded,
    bootstrapConfidence_replicate (by decide) (by decide) (by decide) (by decide) hthree hone⟩

end Estimate

end InlineImpact
