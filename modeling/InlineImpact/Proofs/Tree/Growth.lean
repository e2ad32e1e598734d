import InlineImpact.Tree
import Mathlib.Data.List.Lex

/-!
How a tree grows. The first decisions of a tree are a tree again, and the next one turns it into the
tree with one decision more: nothing has to be put in order, and nothing is missing.
-/
namespace InlineImpact

theorem CallSite.Before.asymm {a b : CallSite} (h : Before a b) : ¬Before b a := by
  unfold CallSite.Before
  rintro (h' | h') <;> rcases h with h | h <;> omega

instance : Std.Asymm (α := CallSite) (· < ·) := ⟨fun _ _ => CallSite.Before.asymm⟩

theorem CallPath.Before.asymm {p q : CallPath} (h : Before p q) : ¬Before q p := by
  rcases h with h | ⟨hl, h⟩ <;> rintro (h' | ⟨hl', h'⟩)
  · omega
  · omega
  · omega
  · exact Std.Asymm.asymm (r := List.Lex (· < ·)) _ _ h h'

theorem CallPath.not_before_self (p : CallPath) : ¬Before p p := fun h => h.asymm h

namespace Decision

theorem le_of_before {d e : Decision} (h : d.Before e) : le d e = true := by
  simp [le, show ¬e.Before d from CallPath.Before.asymm h]

/-- Decisions in order have different paths. -/
theorem path_ne_of_before {d e : Decision} (h : d.Before e) : d.path ≠ e.path := by
  intro he
  rw [Before, he] at h
  exact CallPath.not_before_self _ h

/-- Nothing is dropped if the identities are different. -/
theorem distinct_of_nodup {ds : List Decision} (h : (ds.map key).Nodup) : distinct ds = ds := by
  induction ds with
  | nil => rfl
  | cons d rest ih =>
    obtain ⟨hd, hrest⟩ := List.nodup_cons.1 (List.map_cons ▸ h)
    rw [distinct, ih hrest, List.filter_eq_self.2]
    intro e he
    simp only [ne_eq, decide_not, Bool.not_eq_true', decide_eq_false_iff_not]
    exact fun hkey => hd (List.mem_map.2 ⟨e, he, hkey⟩)

theorem nodup_paths_of_before {ds : List Decision} (h : ds.Pairwise Before) : (ds.map path).Nodup :=
  List.pairwise_map.2 (h.imp path_ne_of_before)

theorem nodup_keys_of_paths {ds : List Decision} (h : (ds.map path).Nodup) : (ds.map key).Nodup :=
  List.pairwise_map.2 ((List.pairwise_map.1 h).imp fun hne hkey => hne (congrArg Prod.fst hkey))

theorem distinct_of_before {ds : List Decision} (h : ds.Pairwise Before) : distinct ds = ds :=
  distinct_of_nodup (nodup_keys_of_paths (nodup_paths_of_before h))

end Decision

namespace Tree

/-- Once they are in order, decisions that stand on each other are a tree. -/
theorem ofDecisions_of_sorted (root : MethodId) {ds es : List Decision}
    (hsort : (Decision.distinct ds).mergeSort Decision.le = es) (ho : es.Pairwise Decision.Before)
    (hs : ∀ d ∈ es, d.Supported es) : ofDecisions root ds = .ok ⟨root, es, ho, hs⟩ := by
  unfold ofDecisions
  simp only [hsort]
  rw [dif_pos ho]
  split
  · rename_i d hd
    rw [hsort] at hd
    have := List.find?_some hd
    simp [hs d (List.mem_of_find?_eq_some hd)] at this
  · rfl

/-- Decisions that are in order and that stand on each other are a tree as they are. -/
theorem ofDecisions_of_ordered (root : MethodId) {ds : List Decision} (ho : ds.Pairwise Decision.Before)
    (hs : ∀ d ∈ ds, d.Supported ds) : ofDecisions root ds = .ok ⟨root, ds, ho, hs⟩ := by
  refine ofDecisions_of_sorted root ?_ ho hs
  rw [Decision.distinct_of_before ho]
  exact List.mergeSort_of_pairwise (ho.imp Decision.le_of_before)

variable (t : Tree)

/-- A decision with another above it comes after that one. -/
theorem supported_take (k : Nat) : ∀ d ∈ t.decisions.take k, d.Supported (t.decisions.take k) := by
  intro d hd
  rcases t.supported d (List.mem_of_mem_take hd) with h | ⟨e, he, hpath⟩
  · exact .inl h
  · refine .inr ⟨e, ?_, hpath⟩
    obtain ⟨i, hi, rfl⟩ := List.mem_take_iff_getElem.1 hd
    obtain ⟨j, hj, rfl⟩ := List.mem_iff_getElem.1 he
    have hbefore : t.decisions[j].Before t.decisions[i] :=
      .inl (by rw [hpath, Decision.path, List.length_append]; exact Nat.lt_succ_self _)
    have hji : j < i := by
      rcases Nat.lt_trichotomy j i with h | rfl | h
      · exact h
      · exact (CallPath.not_before_self _ hbefore).elim
      · exact (CallPath.Before.asymm hbefore (List.pairwise_iff_getElem.1 t.ordered i j _ hj h)).elim
    exact List.mem_take_iff_getElem.2 ⟨j, by omega, rfl⟩

/-- The tree of the first `k` decisions. -/
def upTo (k : Nat) : Tree :=
  ⟨t.root, t.decisions.take k, t.ordered.sublist (List.take_sublist ..), t.supported_take k⟩

@[simp] theorem size_upTo (k : Nat) : (t.upTo k).size = min k t.size := List.length_take

theorem upTo_zero : t.upTo 0 = .empty t.root := rfl

theorem upTo_size : t.upTo t.size = t := by
  obtain ⟨root, ds, ho, hs⟩ := t
  simp [upTo, size]

/-- There is nothing after the last decision. -/
theorem upTo_min (k : Nat) : t.upTo k = t.upTo (min k t.size) := by
  have htake : t.decisions.take k = t.decisions.take (min k t.size) := List.take_eq_take_min
  simp [upTo, ← htake]

variable {t} {k : Nat} {d : Decision}

/-- The next decision makes the next tree. -/
theorem insert_upTo (h : t.decisions[k]? = some d) : (t.upTo k).insert d = .ok (t.upTo (k + 1)) := by
  have htake : t.decisions.take k ++ [d] = t.decisions.take (k + 1) := by
    rw [List.take_add_one, h]
    rfl
  obtain ⟨hk, rfl⟩ := List.getElem?_eq_some_iff.1 h
  have hnew : (t.upTo k).has t.decisions[k] = false := by
    rw [has, List.any_eq_false]
    intro e he hkey
    obtain ⟨i, hi, rfl⟩ := List.mem_take_iff_getElem.1 he
    have hbefore := List.pairwise_iff_getElem.1 t.ordered i k (by omega) hk (by omega)
    exact Decision.path_ne_of_before hbefore (congrArg Prod.fst (of_decide_eq_true hkey))
  rw [insert, hnew]
  simp only [Bool.false_eq_true, ↓reduceIte, upTo, htake]
  exact ofDecisions_of_ordered t.root (t.upTo (k + 1)).ordered (t.upTo (k + 1)).supported

theorem eq_upTo_of_insert {t' : Tree} (h : t.decisions[k]? = some d) (hinsert : (t.upTo k).insert d = .ok t') :
    t' = t.upTo (k + 1) :=
  Except.ok.inj (hinsert.symm.trans (insert_upTo h))

/-- Where some decisions are left, the first of them makes the next tree. -/
theorem of_drop_eq_cons {rest : List Decision} (h : t.decisions.drop k = d :: rest) :
    t.decisions[k]? = some d ∧ t.decisions.drop (k + 1) = rest ∧
      (t.upTo k).insert d = .ok (t.upTo (k + 1)) := by
  have hd : t.decisions[k]? = some d := by
    rw [← List.head?_drop, h]
    rfl
  have hrest : t.decisions.drop (k + 1) = rest := by
    rw [← List.tail_drop, h]
    rfl
  exact ⟨hd, hrest, insert_upTo hd⟩

/-- Every decision of the first tree is one of the second. -/
theorem isSubtreeOf_of_subset {x y : Tree} (hr : x.root = y.root) (hd : x.decisions ⊆ y.decisions) :
    x.isSubtreeOf y := by
  simp only [isSubtreeOf, hr, decide_true, Bool.true_and, List.all_eq_true, has, List.any_eq_true]
  exact fun d hx => ⟨d, hd hx, by simp⟩

theorem upTo_isSubtreeOf (t : Tree) (k : Nat) : (t.upTo k).isSubtreeOf t :=
  isSubtreeOf_of_subset rfl (List.take_subset ..)

theorem upTo_isProperParentOf (h : k < t.size) : (t.upTo k).isProperParentOf (t.upTo (k + 1)) := by
  have hsub : (t.upTo k).isSubtreeOf (t.upTo (k + 1)) :=
    isSubtreeOf_of_subset rfl (List.take_subset_take_left _ (Nat.le_succ k))
  simp only [isProperParentOf, hsub, Bool.true_and, size_upTo, decide_eq_true_eq]
  omega

end Tree

end InlineImpact
