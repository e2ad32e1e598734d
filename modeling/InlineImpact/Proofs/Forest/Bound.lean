import InlineImpact.Proofs.Estimate
import InlineImpact.Proofs.Exploration.Schedule
import InlineImpact.Proofs.Forest.RoundTrip

/-!
Forests without long integers. All that they hold can be written out, and their counts fit doubles.
-/
namespace InlineImpact

/-- No integer of the tree has more than 300 digits. -/
def Tree.IsShort (t : Tree) : Prop := ∀ n ∈ (t.size : Int) :: t.numbers, n.natAbs < 10 ^ 300

/-- No integer of the forest has more than 300 digits. -/
structure Forest.IsShort (f : Forest) : Prop where
  trees : ∀ t ∈ f.trees, ∀ n ∈ t.numbers, n.natAbs < 10 ^ 300
  calls : ∀ p ∈ f.records, p.2.callCount.natAbs < 10 ^ 300

theorem Decimal.isOrdinary_of_short {n : Int} (h : n.natAbs < 10 ^ 300) : IsOrdinary n := by
  rw [show 300 = 3 * 100 from rfl, pow_mul] at h
  have hpow : (2 ^ 10) ^ 100 ≤ 2 ^ 1023 := by
    rw [← pow_mul]
    exact pow_le_pow_right₀ (by decide) (by decide)
  exact (h.trans_le (Nat.pow_le_pow_left (by decide) 100)).trans_le hpow

theorem Tree.numbers_upTo_subset (t : Tree) (k : Nat) : (t.upTo k).numbers ⊆ t.numbers := by
  intro n hn
  simp only [numbers, upTo, List.mem_cons, List.mem_flatMap] at hn ⊢
  rcases hn with hn | hn | ⟨d, hd, hn⟩
  · exact .inl hn
  · exact .inr (.inl hn)
  · exact .inr (.inr ⟨d, List.mem_of_mem_take hd, hn⟩)

namespace Forest

theorem hasReadableSize_of_short {n : Int} (h : n.natAbs < 10 ^ 300) : hasReadableSize n = true := by
  have hdigits : 300 ≤ Text.maxDigits := by decide
  unfold hasReadableSize
  generalize Text.maxDigits = k at hdigits ⊢
  exact decide_eq_true (h.trans_le (pow_le_pow_right₀ (by decide) hdigits))

theorem readable_of_short {t : Tree} (h : t.IsShort) : Readable t :=
  fun n hn => hasReadableSize_of_short (h n hn)

variable {f : Forest}

/-- What a forest with short integers offers has a written form. -/
theorem IsShort.exists_content (h : f.IsShort) {t : Tree} (ht : f.Offers t) :
    ∃ text, Replay.content t = .ok text := by
  obtain ⟨full, k, hfull, rfl⟩ := ht
  have hreadable : ([full.upTo k].all fun t => t.numbers.all hasReadableSize) = true := by
    simp only [List.all_cons, List.all_nil, Bool.and_true, List.all_eq_true]
    intro n hn
    exact hasReadableSize_of_short
      (h.trees full (mem_trees_of_tree hfull).1 n (full.numbers_upTo_subset k hn))
  unfold Replay.content dump?
  generalize ([full.upTo k].all fun t => t.numbers.all hasReadableSize) = readable at hreadable ⊢
  rw [hreadable]
  exact ⟨_, rfl⟩

theorem IsShort.record (h : f.IsShort) (root : MethodId) :
    ((f.record? root).elim 0 (·.callCount)).natAbs < 10 ^ 300 := by
  cases hr : f.record? root with
  | none => exact pow_pos (by decide) 300
  | some r => exact h.calls _ (Keyed.mem_of_get? hr)

theorem isShort_regained {ts : List Tree} (hts : ∀ t ∈ ts, t.IsShort) : (regained ts).IsShort := by
  constructor
  case trees =>
    intro t ht n hn
    obtain ⟨u, hu, rfl⟩ := List.mem_map.1 ht
    rw [Tree.numbers_bare] at hn
    exact hts u (mem_kept.1 hu).1 n (.tail _ hn)
  case calls =>
    intro p hp
    obtain ⟨u, -, rfl⟩ := List.mem_map.1 hp
    exact pow_pos (by decide) 300

end Forest

end InlineImpact
