import InlineImpact.Proofs.Outcome
import InlineImpact.Proofs.Tree.Edit

/-!
The trees that a tree can have grown from in one step. They are those that lack one leaf, so there is one for
each leaf, and whoever goes from a tree to one of them, and on from there, is at the empty tree after as many
steps as the tree has decisions.
-/
namespace InlineImpact

open scoped List

namespace Tree

variable {t u v : Tree} {d e : Decision}

/-- Nothing stands on a decision whose path is that of no decision above another one. -/
theorem mem_leaves : d ∈ t.leaves ↔ d ∈ t.decisions ∧ t.isLeaf d = true := by
  rw [leaves, List.mem_filter, isLeaf_iff]
  simp only [List.mem_map, not_exists, not_and, decide_eq_true_eq, ne_eq]
  constructor
  · rintro ⟨hd, hfree⟩
    exact ⟨hd, ⟨d, hd, rfl⟩, hfree⟩
  · rintro ⟨hd, -, hfree⟩
    exact ⟨hd, hfree⟩

/-- The last decision is a leaf, since none is deeper. -/
theorem exists_leaf (h : t.size ≠ 0) : ∃ d, d ∈ t.leaves := by
  rcases List.eq_nil_or_concat' t.decisions with hnil | ⟨front, last, hlast⟩
  · simp [size, hnil] at h
  · have hmem : last ∈ t.decisions := by simp [hlast]
    refine ⟨last, mem_leaves.2 ⟨hmem, isLeaf_iff.2 ⟨⟨last, hmem, rfl⟩, fun e he habove => ?_⟩⟩⟩
    have hdeeper : e.path.length = last.path.length + 1 := by
      rw [Decision.path, habove, List.length_append, List.length_singleton]
    have hordered := t.ordered
    rw [hlast, List.pairwise_append] at hordered
    rw [hlast, List.mem_append, List.mem_singleton] at he
    rcases he with he | rfl
    · rcases hordered.2.2 e he last (by simp) with hlength | ⟨hlength, -⟩
      · omega
      · omega
    · omega

/-- A leaf comes out, and what is left has all the others. -/
theorem exists_erase_of_mem_leaves (h : d ∈ t.leaves) :
    ∃ p, t.erase d = .ok p ∧ p.root = t.root ∧ t.decisions ~ d :: p.decisions := by
  obtain ⟨hd, hleaf⟩ := mem_leaves.1 h
  obtain ⟨p, hp⟩ := exists_erase_iff.2 hleaf
  obtain ⟨hroot, e, hkey, hperm⟩ := erase_eq_ok_iff.1 hp
  obtain rfl := List.inj_on_of_nodup_map t.nodup_keys (hperm.mem_iff.2 (.head _)) hd hkey
  exact ⟨p, hp, hroot, hperm⟩

/-- A tree with one decision more than a subtree has the subtree's and one leaf. -/
theorem isProperParentOf_iff : u.isProperParentOf t = true ↔ u.root = t.root ∧
    ∃ d ∈ t.leaves, t.decisions.map Decision.key ~ d.key :: u.decisions.map Decision.key := by
  rw [isProperParentOf, Bool.and_eq_true, isSubtreeOf_iff, decide_eq_true_iff]
  constructor
  · rintro ⟨⟨hroot, hsub⟩, hsize⟩
    refine ⟨hroot, ?_⟩
    have hmore : ∃ d ∈ t.decisions, d.key ∉ u.decisions.map Decision.key := by
      by_contra hall
      push Not at hall
      have hsub' : t.decisions.map Decision.key ⊆ u.decisions.map Decision.key := by
        intro k hk
        obtain ⟨d, hd, rfl⟩ := List.mem_map.1 hk
        exact hall d hd
      have := (List.subperm_of_subset t.nodup_keys hsub').length_le
      simp only [List.length_map] at this
      simp only [size] at hsize
      omega
    obtain ⟨d, hd, hnew⟩ := hmore
    have hnodup : (d.key :: u.decisions.map Decision.key).Nodup := List.nodup_cons.2 ⟨hnew, u.nodup_keys⟩
    have hsub' : d.key :: u.decisions.map Decision.key ⊆ t.decisions.map Decision.key :=
      List.cons_subset.2 ⟨List.mem_map_of_mem hd, hsub⟩
    have hkeys : t.decisions.map Decision.key ~ d.key :: u.decisions.map Decision.key := by
      refine ((List.subperm_of_subset hnodup hsub').perm_of_length_le ?_).symm
      simpa [size] using hsize.le
    exact ⟨d, mem_leaves.2 ⟨hd, isLeaf_of_perm hkeys⟩, hkeys⟩
  · rintro ⟨hroot, d, -, hkeys⟩
    refine ⟨⟨hroot, fun k hk => hkeys.mem_iff.2 (.tail _ hk)⟩, ?_⟩
    simpa [size] using hkeys.length_eq

/-- The trees without one leaf, in the order of the leaves. -/
theorem exists_properParents (t : Tree) : ∃ without : Decision → Tree,
    t.properParents = .ok (t.leaves.map without) ∧
      ∀ d ∈ t.leaves, (without d).root = t.root ∧ t.decisions ~ d :: (without d).decisions := by
  have hleaf (d : Decision) : ∃ p, d ∈ t.leaves →
      t.erase d = .ok p ∧ p.root = t.root ∧ t.decisions ~ d :: p.decisions := by
    by_cases h : d ∈ t.leaves
    · obtain ⟨p, hp⟩ := exists_erase_of_mem_leaves h
      exact ⟨p, fun _ => hp⟩
    · exact ⟨t, fun h' => (h h').elim⟩
  choose without hwithout using hleaf
  exact ⟨without, mapM_eq_ok fun d hd => (hwithout d hd).1, fun d hd => (hwithout d hd).2⟩

/-- A proper parent lacks one leaf, and two that lack the same one are the same. -/
theorem alike_iff_of_leaf (hroot : u.root = v.root) (h : t.decisions ~ d :: v.decisions) :
    u.Alike v ↔ t.decisions.map Decision.key ~ d.key :: u.decisions.map Decision.key := by
  have hkeys := h.map Decision.key
  rw [List.map_cons] at hkeys
  constructor
  · intro halike
    exact hkeys.trans (halike.perm_keys.symm.cons _)
  · intro hkeys'
    exact ⟨hroot, fun k => (hkeys'.symm.trans hkeys).cons_inv.mem_iff⟩

/-- Going from a tree to one of its proper parents, some times. -/
inductive Descent (t : Tree) : Nat → Tree → Prop where
  | start : Descent t 0 t
  | step {n : Nat} {u p : Tree} {ps : List Tree} (h : Descent t n u) (hps : u.properParents = .ok ps)
      (hp : p ∈ ps) : Descent t (n + 1) p

/-- Every step takes one decision away. -/
theorem Descent.size_add {n : Nat} (h : Descent t n u) : u.size + n = t.size ∧ u.root = t.root := by
  induction h with
  | start => exact ⟨rfl, rfl⟩
  | @step n u p ps _ hps hp ih =>
    obtain ⟨without, hps', hwithout⟩ := u.exists_properParents
    obtain rfl := Except.ok.inj (hps.symm.trans hps')
    obtain ⟨d, hd, rfl⟩ := List.mem_map.1 hp
    obtain ⟨hroot, hperm⟩ := hwithout d hd
    have hlength := hperm.length_eq
    simp only [size, List.length_cons] at ih hlength ⊢
    exact ⟨by omega, hroot.trans ih.2⟩

theorem eq_empty_of_size_eq_zero (h : t.size = 0) : t = .empty t.root := by
  refine eq_of_perm rfl ?_
  rw [List.length_eq_zero_iff.1 h]
  exact .nil

/-- By induction on the steps: as long as there is a decision left, there is a leaf to go on without. -/
theorem exists_descent {n : Nat} (h : n ≤ t.size) : ∃ u, Descent t n u := by
  induction n with
  | zero => exact ⟨t, .start⟩
  | succ n ih =>
    obtain ⟨u, hu⟩ := ih (by omega)
    have hsize := hu.size_add.1
    obtain ⟨without, hps, -⟩ := u.exists_properParents
    obtain ⟨d, hd⟩ := exists_leaf (t := u) (by omega)
    exact ⟨without d, .step hu hps (List.mem_map_of_mem hd)⟩

theorem descent_to_empty (t : Tree) : Descent t t.size (.empty t.root) := by
  obtain ⟨u, hu⟩ := exists_descent (t := t) le_rfl
  obtain ⟨hsize, hroot⟩ := hu.size_add
  rwa [eq_empty_of_size_eq_zero (t := u) (by omega), hroot] at hu

/-- The proper parents of a tree are enumerated, each once. Whichever of them is taken again and again, the
empty tree is reached after as many steps as the tree has decisions, and not before. -/
theorem properParents_exact (t : Tree) : ∃ ps, t.properParents = .ok ps ∧
    (∀ x : Tree, x.isProperParentOf t = true ↔ ∃ p ∈ ps, x.same p = true) ∧
    ps.Pairwise (fun p q => p.same q = false) ∧
    (t.size ≠ 0 → ps ≠ []) ∧
    ∀ n u, Descent t n u → n ≤ t.size ∧ (n = t.size ↔ u = .empty t.root) ∧
      Descent u (t.size - n) (.empty t.root) := by
  obtain ⟨without, hps, hwithout⟩ := t.exists_properParents
  refine ⟨t.leaves.map without, hps, fun x => ?_, ?_, fun h => ?_, fun n u hu => ?_⟩
  · -- A proper parent is told by the leaf that it lacks.
    simp only [same_iff_alike, isProperParentOf_iff, List.mem_map, exists_exists_and_eq_and]
    constructor
    · rintro ⟨hroot, d, hd, hkeys⟩
      obtain ⟨hroot', hperm⟩ := hwithout d hd
      exact ⟨d, hd, (alike_iff_of_leaf (hroot.trans hroot'.symm) hperm).2 hkeys⟩
    · rintro ⟨d, hd, halike⟩
      obtain ⟨hroot, hperm⟩ := hwithout d hd
      exact ⟨halike.root.trans hroot, d, hd, (alike_iff_of_leaf halike.root hperm).1 halike⟩
  · have hnodup : t.leaves.Pairwise fun d e => d.key ≠ e.key :=
      List.pairwise_map.1 (t.nodup_keys_filter _)
    refine List.pairwise_map.2 (hnodup.imp_of_mem fun {d e} hd he hne => ?_)
    rw [Bool.eq_false_iff, ne_eq, same_iff_alike]
    intro halike
    -- What the second lacks is there in the first.
    obtain ⟨-, hperm⟩ := hwithout d hd
    obtain ⟨-, hperm'⟩ := hwithout e he
    have hkeys := (alike_iff_of_leaf halike.root hperm').1 halike
    have hmem : e ∈ (without d).decisions := by
      refine (List.mem_cons.1 (hperm.mem_iff.1 (mem_leaves.1 he).1)).resolve_left ?_
      rintro rfl
      exact hne rfl
    exact (List.nodup_cons.1 (hkeys.nodup_iff.1 t.nodup_keys)).1 (List.mem_map_of_mem hmem)
  · obtain ⟨d, hd⟩ := exists_leaf h
    exact List.ne_nil_of_mem (List.mem_map_of_mem hd)
  · obtain ⟨hsize, hroot⟩ := hu.size_add
    have hleft : t.size - n = u.size := by omega
    refine ⟨by omega, ?_, ?_⟩
    · constructor
      · intro hn
        rw [← hroot]
        exact eq_empty_of_size_eq_zero (by omega)
      · rintro rfl
        simpa [size, empty] using hsize
    · rw [hleft, ← hroot]
      exact descent_to_empty u

end Tree

end InlineImpact
