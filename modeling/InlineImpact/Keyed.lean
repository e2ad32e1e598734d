/-!
Values kept by key in the order in which the keys first came. A later value for a key takes the place
of the earlier one.
-/
namespace InlineImpact

abbrev Keyed (κ : Type) (α : Type) := List (κ × α)

namespace Keyed

variable {κ α : Type} [DecidableEq κ]

def get? (k : κ) : Keyed κ α → Option α
  | [] => none
  | (k', v) :: rest => if k' = k then some v else get? k rest

def put (k : κ) (v : α) : Keyed κ α → Keyed κ α
  | [] => [(k, v)]
  | (k', v') :: rest => if k' = k then (k, v) :: rest else (k', v') :: put k v rest

/-- Keeps the last of several values for one key, at the place of the first. -/
def ofPairs (ps : List (κ × α)) : Keyed κ α :=
  ps.foldl (fun m (k, v) => put k v m) []

def keys (m : Keyed κ α) : List κ := m.map Prod.fst

@[simp] theorem get?_nil (k : κ) : get? k ([] : Keyed κ α) = none := rfl

@[simp] theorem get?_put_self (k : κ) (v : α) (m : Keyed κ α) : get? k (put k v m) = some v := by
  induction m with
  | nil => simp [put, get?]
  | cons p rest ih =>
    obtain ⟨k', v'⟩ := p
    by_cases h : k' = k <;> simp [put, get?, h, ih]

theorem get?_put_of_ne {k j : κ} (h : j ≠ k) (v : α) (m : Keyed κ α) :
    get? j (put k v m) = get? j m := by
  induction m with
  | nil => simp [put, get?, Ne.symm h]
  | cons p rest ih =>
    obtain ⟨k', v'⟩ := p
    by_cases hk : k' = k
    · subst hk
      simp [put, get?, Ne.symm h]
    · by_cases hj : k' = j
      · subst hj
        simp [put, get?, h]
      · simp [put, get?, hk, hj, ih]

theorem get?_put (k j : κ) (v : α) (m : Keyed κ α) :
    get? j (put k v m) = if j = k then some v else get? j m := by
  split
  · rename_i h
    rw [h, get?_put_self]
  · rename_i h
    exact get?_put_of_ne h v m

theorem mem_of_get? {k : κ} {v : α} {m : Keyed κ α} (h : get? k m = some v) : (k, v) ∈ m := by
  induction m with
  | nil => cases h
  | cons p rest ih =>
    obtain ⟨k', v'⟩ := p
    by_cases hk : k' = k
    · rw [get?, if_pos hk] at h
      rw [hk, Option.some.inj h]
      exact .head _
    · rw [get?, if_neg hk] at h
      exact .tail _ (ih h)

/-- A key that has one value only is mapped to it. -/
theorem get?_of_unique {k : κ} {v : α} {m : Keyed κ α} (hmem : (k, v) ∈ m) (h : ∀ w, (k, w) ∈ m → w = v) :
    get? k m = some v := by
  induction m with
  | nil => cases hmem
  | cons p rest ih =>
    obtain ⟨k', v'⟩ := p
    by_cases hk : k' = k
    · subst hk
      rw [get?, if_pos rfl, h v' (.head _)]
    · rw [get?, if_neg hk]
      refine ih ((List.mem_cons.1 hmem).resolve_left fun hp => ?_) fun w hw => h w (.tail _ hw)
      exact hk (Prod.mk.inj hp).1.symm

theorem mem_put {k : κ} {v : α} {m : Keyed κ α} {p : κ × α} (h : p ∈ put k v m) : p = (k, v) ∨ p ∈ m := by
  induction m with
  | nil => exact .inl (List.mem_singleton.1 h)
  | cons q rest ih =>
    obtain ⟨k', v'⟩ := q
    by_cases hk : k' = k
    · rw [put, if_pos hk] at h
      exact (List.mem_cons.1 h).imp_right (.tail _)
    · rw [put, if_neg hk] at h
      rcases List.mem_cons.1 h with rfl | h
      · exact .inr (.head _)
      · exact (ih h).imp_right (.tail _)

end Keyed

end InlineImpact
