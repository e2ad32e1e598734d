import InlineImpact.Random
import Mathlib.Tactic.NormNum

/-!
Drawing samples again. Words have thirty-two bits, so that every index is one of a sample: a resampling
has as many samples as there are, and no others. Of samples that are all the same there is only one
resampling, whatever is drawn.
-/
namespace InlineImpact.Random.Generator

/-- The word that is kept for the next draw has thirty-two bits. -/
def HoldsWord (g : Generator) : Prop := ∀ word, g.held = some word → word < 2 ^ 32

variable {g : Generator} {n : Nat}

theorem holdsWord_ofSeed (seed : Nat) : (ofSeed seed).HoldsWord := nofun

theorem rotateRight_lt (x n : Nat) : rotateRight x n < 2 ^ 64 := Nat.mod_lt _ (by norm_num)

theorem HoldsWord.next (h : g.HoldsWord) : g.next.1 < 2 ^ 32 ∧ g.next.2.HoldsWord := by
  unfold Generator.next
  split
  · rename_i word hheld
    exact ⟨h word hheld, nofun⟩
  · refine ⟨Nat.mod_lt _ (by norm_num), ?_⟩
    rintro word hword
    rw [← Option.some.inj hword, Nat.shiftRight_eq_div_pow, Nat.div_lt_iff_lt_mul (by norm_num)]
    exact (rotateRight_lt _ _).trans_eq (by norm_num)

/-- The high half of a word times `n`. -/
theorem mul_shiftRight_lt {word : Nat} (hword : word < 2 ^ 32) (hn : 0 < n) : (word * n) >>> 32 < n := by
  rw [Nat.shiftRight_eq_div_pow, Nat.div_lt_iff_lt_mul (by norm_num), mul_comm n]
  exact Nat.mul_lt_mul_of_pos_right hword hn

theorem HoldsWord.drawBelow (h : g.HoldsWord) (hn : 0 < n) (fuel : Nat) :
    (drawBelow n fuel g).1 < n ∧ (drawBelow n fuel g).2.HoldsWord := by
  induction fuel generalizing g with
  | zero => exact ⟨mul_shiftRight_lt h.next.1 hn, h.next.2⟩
  | succ fuel ih =>
    rw [Generator.drawBelow]
    dsimp only
    split
    · exact ih h.next.2
    · exact ⟨mul_shiftRight_lt h.next.1 hn, h.next.2⟩

theorem HoldsWord.below (h : g.HoldsWord) (hn : 0 < n) :
    (below n g).1 < n ∧ (below n g).2.HoldsWord := by
  unfold Generator.below
  split
  · exact ⟨hn, h⟩
  · exact h.drawBelow hn 128

variable {samples : Array Float}

/-- A resampling has the length that was asked for, and every sample in it is one of those there are. -/
theorem HoldsWord.resample (h : g.HoldsWord) (hpos : 0 < samples.size) (count : Nat) :
    (resample samples count g).1.length = count ∧ (∀ x ∈ (resample samples count g).1, x ∈ samples) ∧
      (resample samples count g).2.HoldsWord := by
  induction count generalizing g with
  | zero => exact ⟨rfl, nofun, h⟩
  | succ count ih =>
    obtain ⟨hindex, hnext⟩ := h.below hpos
    obtain ⟨hlength, hmem, hrest⟩ := ih hnext
    refine ⟨congrArg (· + 1) hlength, ?_, hrest⟩
    rintro x (_ | ⟨_, hx⟩)
    · show samples.getD (Generator.below samples.size g).1 0.0 ∈ samples
      rw [Array.getD, dif_pos hindex]
      exact Array.getElem_mem hindex
    · exact hmem x hx

/-- Samples that are all the same are drawn as they are. -/
theorem HoldsWord.resample_replicate (h : g.HoldsWord) (hn : 0 < n) (c : Float) :
    (Generator.resample (List.replicate n c).toArray n g).1 = List.replicate n c := by
  have hsize : (List.replicate n c).toArray.size = n := by simp
  obtain ⟨hlength, hmem, -⟩ := h.resample (hsize.symm ▸ hn) n
  refine List.eq_replicate_iff.2 ⟨hlength, fun x hx => ?_⟩
  exact List.eq_of_mem_replicate (by simpa using hmem x hx)

/-- The means of `rows` resamplings of samples that are all the same. -/
theorem HoldsWord.resampledMeans_replicate (h : g.HoldsWord) (hn : 0 < n) (mean : List Float → Float)
    (c : Float) (rows : Nat) :
    (resampledMeans mean (List.replicate n c).toArray rows g).1 =
        List.replicate rows (mean (List.replicate n c)) ∧
      (resampledMeans mean (List.replicate n c).toArray rows g).2.HoldsWord := by
  induction rows generalizing g with
  | zero => exact ⟨rfl, h⟩
  | succ rows ih =>
    have hsize : (List.replicate n c).toArray.size = n := by simp
    obtain ⟨hmeans, hrest⟩ := ih (h.resample (hsize.symm ▸ hn) n).2.2
    rw [resampledMeans, hsize]
    exact ⟨congrArg₂ List.cons (congrArg mean (h.resample_replicate hn c)) hmeans, hrest⟩

end InlineImpact.Random.Generator
