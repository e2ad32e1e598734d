import InlineImpact.Proofs.Tree.Formation

/-!
Growing a tree breadth first. The decisions of a tree come in one order, and whoever puts them in one after
another in this order is never refused: what a decision stands on is always there before it.
-/
namespace InlineImpact

open scoped List

namespace Tree

variable {t u : Tree}

/-- By induction on their number: the first decisions go in one after another. -/
theorem foldlM_insert_take {k : Nat} (h : k ≤ t.size) :
    (t.decisions.take k).foldlM insert (.empty t.root) = .ok (t.upTo k) := by
  induction k with
  | zero => rfl
  | succ k ih =>
    have hnext : t.decisions[k]? = some t.decisions[k] := List.getElem?_eq_getElem h
    rw [List.take_add_one, List.foldlM_append, ih (by omega), hnext]
    show (t.upTo k).insert t.decisions[k] >>= pure = _
    rw [insert_upTo hnext]
    rfl

theorem foldlM_insert_decisions (t : Tree) : t.decisions.foldlM insert (.empty t.root) = .ok t := by
  have hall := foldlM_insert_take (t := t) le_rfl
  rwa [size, List.take_length, ← size, upTo_size] at hall

/-- Trees that are compared as equal have their decisions in the same order. -/
theorem Alike.map_key_eq (h : t.Alike u) : t.decisions.map Decision.key = u.decisions.map Decision.key := by
  have hordered (t : Tree) : (t.decisions.map Decision.key).Pairwise fun k l => CallPath.Before k.1 l.1 :=
    List.pairwise_map.2 t.ordered
  refine h.perm_keys.eq_of_pairwise ?_ (hordered t) (hordered u)
  exact fun k l _ _ hkl hlk => (hkl.asymm hlk).elim

/-- Breadth first there is one order of the decisions, however the set of them is listed. Those of a tree make
the tree out of nothing in this order. None is refused, and what there is on the way is a tree itself: its paths
are different, and with each it has all that the path goes through. Each has one decision more than the one
before. -/
theorem grows_breadthFirst (t : Tree) :
    (∀ ds, ds ~ t.decisions → ofDecisions t.root ds = .ok t ∧ ds.mergeSort Decision.le = t.decisions) ∧
    (∀ u : Tree, u.same t = true → u.decisions.map Decision.key = t.decisions.map Decision.key) ∧
    t.decisions.foldlM insert (.empty t.root) = .ok t ∧
    ∀ k ≤ t.size, ∃ u, (t.decisions.take k).foldlM insert (.empty t.root) = .ok u ∧
      u.isSubtreeOf t = true ∧ (u.decisions.map Decision.path).Nodup ∧
      (∀ x ∈ u.decisions, ∀ p, p ≠ [] → p <+: x.path → ∃ y ∈ u.decisions, y.path = p) ∧
      (k < t.size → ∃ v, (t.decisions.take (k + 1)).foldlM insert (.empty t.root) = .ok v ∧
        u.isProperParentOf v = true) := by
  refine ⟨?_, ?_, t.foldlM_insert_decisions, ?_⟩
  · intro ds hds
    exact ⟨ofDecisions_of_perm hds, Decision.mergeSort_eq_of_perm hds t.ordered⟩
  · intro u hu
    apply Alike.map_key_eq
    exact same_iff_alike.1 hu
  · intro k hk
    refine ⟨t.upTo k, foldlM_insert_take hk, t.upTo_isSubtreeOf k, (t.upTo k).nodup_paths, ?_, ?_⟩
    · intro x hx p hne hfront
      exact exists_ancestor hx hfront hne
    · intro hlt
      exact ⟨t.upTo (k + 1), foldlM_insert_take hlt, upTo_isProperParentOf hlt⟩

end Tree

end InlineImpact
