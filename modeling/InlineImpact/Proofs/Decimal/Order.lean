import InlineImpact.Capture.Aggregate
import Mathlib

/-!
The order of doubles. Every double has a rank in a linear order: its sign first, then the exponent and
the mantissa of its canonical form. Beside the value that is no number, one double is below another
exactly when its rank is, and they compare equal when they have the same rank, as the two zeros do.
-/
namespace InlineImpact.Decimal

open Float.Model (UnpackedFloat)

/-- The place of an unpacked double among all of them. What is no number comes last. -/
def rankOf : UnpackedFloat → ℤ ×ₗ ℤ ×ₗ ℤ
  | .infinity .negative => toLex (-2, toLex (0, 0))
  | .finite .negative m e _ => toLex (-1, toLex (-e, -m))
  | .zero _ => toLex (0, toLex (0, 0))
  | .finite .positive m e _ => toLex (1, toLex (e, m))
  | .infinity .positive => toLex (2, toLex (0, 0))
  | .notANumber => toLex (3, toLex (0, 0))

def rank (x : Float) : ℤ ×ₗ ℤ ×ₗ ℤ := rankOf x.toModel.unpack

private theorem then_eq_lt_iff (e e' : ℤ) (m m' : ℕ) :
    (compare e e').then (compare m m') = .lt ↔ e < e' ∨ e = e' ∧ m < m' := by
  rw [Ordering.then_eq_lt, compare_lt_iff_lt, compare_lt_iff_lt, compare_eq_iff_eq]

private theorem then_eq_gt_iff (e e' : ℤ) (m m' : ℕ) :
    (compare e e').then (compare m m') = .gt ↔ e' < e ∨ e = e' ∧ m' < m := by
  rw [Ordering.then_eq_gt, compare_gt_iff_gt, compare_gt_iff_gt, compare_eq_iff_eq]

section Unpacked

variable {a b : UnpackedFloat}

theorem compare_eq_lt_iff (ha : a.isNaN = false) (hb : b.isNaN = false) :
    a.compare b = some .lt ↔ rankOf a < rankOf b := by
  rcases a with s | _ | s | ⟨s, m, e, hm⟩ <;> rcases b with s' | _ | s' | ⟨s', m', e', hm'⟩ <;>
    (try cases s) <;> (try cases s') <;>
    simp_all [UnpackedFloat.compare, UnpackedFloat.isNaN, rankOf, Prod.Lex.toLex_lt_toLex,
      then_eq_lt_iff, then_eq_gt_iff]
  rfl

theorem compare_eq_eq_iff (ha : a.isNaN = false) (hb : b.isNaN = false) :
    a.compare b = some .eq ↔ rankOf a = rankOf b := by
  rcases a with s | _ | s | ⟨s, m, e, hm⟩ <;> rcases b with s' | _ | s' | ⟨s', m', e', hm'⟩ <;>
    (try cases s) <;> (try cases s') <;>
    simp_all [UnpackedFloat.compare, UnpackedFloat.isNaN, rankOf]
  · decide
  · decide

/-- What is no number is not below anything, and nothing is below it. -/
theorem compare_eq_none (h : a.isNaN = true ∨ b.isNaN = true) : a.compare b = none := by
  rcases a with s | _ | s | _ <;> rcases b with s' | _ | s' | _ <;>
    simp_all [UnpackedFloat.compare, UnpackedFloat.isNaN]

theorem rankOf_le_notANumber (a : UnpackedFloat) : rankOf a ≤ rankOf .notANumber := by
  rcases a with s | _ | s | ⟨s, m, e, hm⟩ <;> (try cases s) <;>
    simp [rankOf, Prod.Lex.toLex_le_toLex]

theorem rankOf_lt_notANumber (ha : a.isNaN = false) : rankOf a < rankOf .notANumber := by
  rcases a with s | _ | s | ⟨s, m, e, hm⟩ <;> (try cases s) <;>
    simp_all [UnpackedFloat.isNaN, rankOf, Prod.Lex.toLex_lt_toLex]

end Unpacked

section Doubles

variable {x y : Float}

theorem lt_iff_compare : x < y ↔ x.toModel.unpack.compare y.toModel.unpack = some .lt := by
  show decide (x.toModel < y.toModel) = true ↔ _
  rw [decide_eq_true_iff]
  show (x.toModel.unpack.compare y.toModel.unpack == some .lt) = true ↔ _
  exact beq_iff_eq

theorem beq_iff_compare : (x == y) = true ↔ x.toModel.unpack.compare y.toModel.unpack = some .eq := by
  show (x.toModel.unpack.compare y.toModel.unpack == some .eq) = true ↔ _
  exact beq_iff_eq

theorem le_iff_compare :
    x ≤ y ↔ x.toModel.unpack.compare y.toModel.unpack = some .lt ∨
      x.toModel.unpack.compare y.toModel.unpack = some .eq := by
  show decide (x.toModel ≤ y.toModel) = true ↔ _
  rw [decide_eq_true_iff]
  show (x.toModel.unpack.compare y.toModel.unpack).any Ordering.isLE = true ↔ _
  rcases x.toModel.unpack.compare y.toModel.unpack with _ | _ | _ | _ <;> simp [Ordering.isLE]

theorem lt_iff_rank (hx : x.isNaN = false) (hy : y.isNaN = false) : x < y ↔ rank x < rank y :=
  lt_iff_compare.trans (compare_eq_lt_iff hx hy)

theorem beq_iff_rank (hx : x.isNaN = false) (hy : y.isNaN = false) :
    (x == y) = true ↔ rank x = rank y :=
  beq_iff_compare.trans (compare_eq_eq_iff hx hy)

theorem le_iff_rank (hx : x.isNaN = false) (hy : y.isNaN = false) : x ≤ y ↔ rank x ≤ rank y := by
  rw [le_iff_compare, le_iff_lt_or_eq]
  exact or_congr (compare_eq_lt_iff hx hy) (compare_eq_eq_iff hx hy)

theorem isNaN_of_le (h : x ≤ y) : x.isNaN = false ∧ y.isNaN = false := by
  have hcompare : x.toModel.unpack.compare y.toModel.unpack ≠ none := by
    rcases le_iff_compare.1 h with h | h <;> simp [h]
  exact ⟨Bool.eq_false_iff.2 fun hx => hcompare (compare_eq_none (.inl hx)),
    Bool.eq_false_iff.2 fun hy => hcompare (compare_eq_none (.inr hy))⟩

/-- Once what is no number comes last, the order of doubles is that of their ranks without exception. -/
theorem earlier_iff_rank : Capture.earlier x y = true ↔ rank x < rank y := by
  cases hx : x.isNaN with
  | true =>
    have hlt : ¬ x < y := fun h => by
      rw [lt_iff_compare, compare_eq_none (.inl hx)] at h
      cases h
    have hle : rank y ≤ rank x := by
      rw [rank, rank, UnpackedFloat.isNaN_iff.1 hx]
      exact rankOf_le_notANumber _
    simp only [Capture.earlier, hlt, hx, decide_false, Bool.not_true, Bool.and_false, Bool.or_self]
    exact ⟨nofun, fun h => absurd h (not_lt.2 hle)⟩
  | false =>
    cases hy : y.isNaN with
    | true =>
      have hlt : rank x < rank y := by
        rw [rank, rank, UnpackedFloat.isNaN_iff.1 hy]
        exact rankOf_lt_notANumber hx
      simp only [Capture.earlier, hx, hy, hlt, Bool.not_false, Bool.and_true, Bool.or_true]
    | false =>
      simp only [Capture.earlier, hy, Bool.false_and, Bool.or_false, decide_eq_true_eq]
      exact lt_iff_rank hx hy

theorem rank_lt_of_isNaN (hx : x.isNaN = false) (hy : y.isNaN = true) : rank x < rank y := by
  rw [← earlier_iff_rank]
  simp only [Capture.earlier, hx, hy, Bool.not_false, Bool.and_true, Bool.or_true]

end Doubles

end InlineImpact.Decimal
