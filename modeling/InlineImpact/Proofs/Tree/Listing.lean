import InlineImpact.Proofs.Tree.Growth
import Mathlib.Data.List.Lex
import Mathlib.Data.List.Nodup
import Mathlib.Data.List.Perm.Subperm
import Mathlib.Data.List.Sort

/-!
The decisions of a tree in the order of a report: each before those inside it. The listing holds every
decision once, so a tree is found again from it, with each decision told the method that it is inlined
into.
-/
namespace InlineImpact

instance : Std.Trichotomous (α := CallSite) (· < ·) := ⟨fun a b hab hba => by
  obtain ⟨o, n⟩ := a
  obtain ⟨o', n'⟩ := b
  have hab : ¬ (o < o' ∨ (o = o' ∧ n < n')) := hab
  have hba : ¬ (o' < o ∨ (o' = o ∧ n' < n)) := hba
  obtain ⟨rfl, rfl⟩ : o = o' ∧ n = n' := by omega
  rfl⟩

instance : IsOrderConnected CallSite (· < ·) := ⟨fun a b c h => by
  have h : a.offset < c.offset ∨ (a.offset = c.offset ∧ a.token < c.token) := h
  show (a.offset < b.offset ∨ (a.offset = b.offset ∧ a.token < b.token)) ∨
    (b.offset < c.offset ∨ (b.offset = c.offset ∧ b.token < c.token))
  omega⟩

/-- One of two different paths comes first. -/
theorem CallPath.eq_of_not_before {p q : CallPath} (h : ¬Before p q) (h' : ¬Before q p) : p = q := by
  have hlength : p.length = q.length := by
    unfold Before at h h'
    omega
  exact Std.Trichotomous.trichotomous (r := List.Lex (· < ·)) p q (fun hl => h (.inr ⟨hlength, hl⟩))
    fun hl => h' (.inr ⟨hlength.symm, hl⟩)

/-- A path between two others comes after the first or before the second. -/
theorem CallPath.before_or_before {p r : CallPath} (h : Before p r) (q : CallPath) :
    Before p q ∨ Before q r := by
  rcases h with h | ⟨hlength, h⟩
  · by_cases hq : p.length < q.length
    · exact .inl (.inl hq)
    · exact .inr (.inl (by omega))
  · rcases Nat.lt_trichotomy p.length q.length with hq | hq | hq
    · exact .inl (.inl hq)
    · have hlex : List.Lex (· < ·) p q ∨ List.Lex (· < ·) q r := IsOrderConnected.conn p q r h
      exact hlex.imp (.inr ⟨hq, ·⟩) (.inr ⟨hq ▸ hlength, ·⟩)
    · exact .inr (.inl (by omega))

namespace Decision

theorem le_total (d e : Decision) : le d e || le e d := by
  by_cases h : d.Before e
  · rw [le_of_before h, Bool.true_or]
  · simp [le, h]

theorem le_trans (d e f : Decision) (h : le d e = true) (h' : le e f = true) : le d f = true := by
  simp only [le, Bool.not_eq_true', decide_eq_false_iff_not] at h h' ⊢
  intro hfd
  rcases CallPath.before_or_before hfd e.path with hfe | hed
  · exact h' hfe
  · exact h hed

/-- Sorting decisions whose paths are different puts them in order. -/
theorem pairwise_before_mergeSort {ds : List Decision} (h : (ds.map path).Nodup) :
    (ds.mergeSort le).Pairwise Before := by
  have hperm : (ds.mergeSort le).Perm ds := List.mergeSort_perm _ _
  have hnodup : ((ds.mergeSort le).map path).Nodup := (hperm.map path).nodup_iff.2 h
  refine ((List.pairwise_mergeSort le_trans le_total ds).and (List.pairwise_map.1 hnodup)).imp ?_
  rintro d e ⟨hle, hne⟩
  by_contra hbefore
  refine hne (CallPath.eq_of_not_before hbefore fun h => ?_)
  simp [le, show e.Before d from h] at hle

/-- There is one order to sort the same decisions into. -/
theorem mergeSort_eq_of_perm {ds es : List Decision} (h : ds.Perm es) (ho : es.Pairwise Before) :
    ds.mergeSort le = es := by
  have hnodup : (ds.map path).Nodup := (h.map path).nodup_iff.2 (nodup_paths_of_before ho)
  refine ((List.mergeSort_perm ds le).trans h).eq_of_pairwise ?_ (pairwise_before_mergeSort hnodup) ho
  exact fun d e _ _ hde hed => (CallPath.Before.asymm hde hed).elim

end Decision

namespace Tree

variable (t : Tree)

theorem nodup_paths : (t.decisions.map Decision.path).Nodup := Decision.nodup_paths_of_before t.ordered

theorem nodup_keys : (t.decisions.map Decision.key).Nodup := Decision.nodup_keys_of_paths t.nodup_paths

variable {t}

/-- The decisions of a tree make the tree again, in whatever order they come. -/
theorem ofDecisions_of_perm {ds : List Decision} (h : ds.Perm t.decisions) :
    ofDecisions t.root ds = .ok t := by
  have hnodup : (ds.map Decision.path).Nodup := (h.map _).nodup_iff.2 t.nodup_paths
  refine ofDecisions_of_sorted t.root ?_ t.ordered t.supported
  rw [Decision.distinct_of_nodup (Decision.nodup_keys_of_paths hnodup)]
  exact Decision.mergeSort_eq_of_perm h t.ordered

/-- What stands at the front of a decision's path is the path of a decision. -/
theorem exists_ancestor {d : Decision} (hd : d ∈ t.decisions) {p : CallPath} (hp : p <+: d.path)
    (hne : p ≠ []) : ∃ e ∈ t.decisions, e.path = p := by
  induction hn : d.above.length using Nat.strong_induction_on generalizing d with
  | _ n ih =>
    rcases List.prefix_concat_iff.1 hp with rfl | habove
    · exact ⟨d, hd, rfl⟩
    · rcases t.supported d hd with hroot | ⟨e, he, hpath⟩
      · rw [hroot, List.prefix_nil] at habove
        exact (hne habove).elim
      · refine ih e.above.length ?_ he (hpath ▸ habove) rfl
        have := congrArg List.length hpath
        rw [Decision.length_path, Decision.depth] at this
        omega

/-- Every beginning of a path is the path of another decision. -/
theorem depth_le_size {d : Decision} (hd : d ∈ t.decisions) : d.depth ≤ t.size := by
  have hlength : ((List.range d.depth).map fun i => d.path.take (i + 1)).length = d.depth := by
    rw [List.length_map, List.length_range]
  have hnodup : ((List.range d.depth).map fun i => d.path.take (i + 1)).Nodup := by
    refine List.Nodup.map_on (fun i hi j hj hij => ?_) List.nodup_range
    rw [List.mem_range] at hi hj
    have := congrArg List.length hij
    rw [List.length_take, List.length_take, Decision.length_path] at this
    omega
  have hsub : ((List.range d.depth).map fun i => d.path.take (i + 1)) ⊆ t.decisions.map Decision.path := by
    intro p hp
    obtain ⟨i, -, rfl⟩ := List.mem_map.1 hp
    obtain ⟨e, he, hpath⟩ := exists_ancestor hd (List.take_prefix (i + 1) d.path) (by simp)
    exact List.mem_map.2 ⟨e, he, hpath⟩
  have := (List.Nodup.subperm hnodup hsub).length_le
  rwa [hlength, List.length_map] at this

/-- The decisions below a path, down to some levels, each before those inside it. -/
def preorder (t : Tree) : (levels : Nat) → CallPath → List Decision
  | 0, _ => []
  | levels + 1, p => (t.below p).flatMap fun d => d :: t.preorder levels d.path

theorem mem_below {d : Decision} {p : CallPath} : d ∈ t.below p ↔ d ∈ t.decisions ∧ d.above = p := by
  simp [below]

theorem mem_preorder {levels : Nat} {p : CallPath} {d : Decision} :
    d ∈ t.preorder levels p ↔ d ∈ t.decisions ∧ p <+: d.above ∧ d.above.length < p.length + levels := by
  induction levels generalizing p with
  | zero =>
    simp only [preorder, List.not_mem_nil, false_iff, not_and]
    intro _ hp
    have := hp.length_le
    omega
  | succ levels ih =>
    simp only [preorder, List.mem_flatMap, List.mem_cons, mem_below, ih, Decision.length_path, Decision.depth]
    constructor
    · rintro ⟨e, ⟨he, rfl⟩, rfl | ⟨hd, hp, hlength⟩⟩
      · exact ⟨he, List.prefix_rfl, by omega⟩
      · exact ⟨hd, (List.prefix_append _ _).trans hp, by omega⟩
    · rintro ⟨hd, ⟨q, hq⟩, hlength⟩
      cases q with
      | nil => exact ⟨d, ⟨hd, by rw [← hq, List.append_nil]⟩, .inl rfl⟩
      | cons s q =>
        -- The decision that stands directly below the path on the way to `d`.
        have hnext : p ++ [s] <+: d.above := ⟨q, by rw [List.append_assoc, ← hq]; rfl⟩
        obtain ⟨e, he, hpath⟩ := exists_ancestor hd (hnext.trans (List.prefix_append _ _)) (by simp)
        obtain ⟨habove, -⟩ := List.append_inj' hpath rfl
        refine ⟨e, ⟨he, habove⟩, .inr ⟨hd, hpath ▸ hnext, ?_⟩⟩
        have := congrArg List.length habove
        omega

theorem nodup_preorder (levels : Nat) (p : CallPath) : (t.preorder levels p).Nodup := by
  induction levels generalizing p with
  | zero => exact .nil
  | succ levels ih =>
    rw [preorder, List.nodup_flatMap]
    refine ⟨fun d _ => List.nodup_cons.2 ⟨fun hd => ?_, ih d.path⟩, ?_⟩
    · have := (mem_preorder.1 hd).2.1.length_le
      rw [Decision.length_path, Decision.depth] at this
      omega
    · have hpairwise : (t.below p).Pairwise Decision.Before := t.ordered.sublist List.filter_sublist
      refine hpairwise.imp_of_mem fun {d e} hd he hbefore x hx hx' => ?_
      have hfront {d : Decision} (h : x ∈ d :: t.preorder levels d.path) : d.path <+: x.path := by
        rcases List.mem_cons.1 h with rfl | h
        · exact List.prefix_rfl
        · exact (mem_preorder.1 h).2.1.trans (List.prefix_append _ _)
      -- Paths of one length in front of the same path are the same.
      have hlength : d.path.length = e.path.length := by
        simp only [Decision.length_path, Decision.depth, (mem_below.1 hd).2, (mem_below.1 he).2]
      exact Decision.path_ne_of_before hbefore
        ((List.prefix_of_prefix_length_le (hfront hx) (hfront hx') hlength.le).eq_of_length hlength)

/-- The listing of a whole tree has every decision once. -/
theorem preorder_perm (t : Tree) : (t.preorder t.size []).Perm t.decisions := by
  refine (List.perm_ext_iff_of_nodup (nodup_preorder _ _) (t.nodup_paths.of_map _)).2 fun d => ?_
  rw [mem_preorder]
  refine ⟨fun h => h.1, fun h => ⟨h, List.nil_prefix, ?_⟩⟩
  have := depth_le_size h
  rw [Decision.depth] at this
  rw [List.length_nil]
  omega

/-- The method that the decisions below a path are inlined into. -/
def callerOf (t : Tree) (p : CallPath) : MethodId := ((t.find? p).map Decision.callee).getD t.root

/-- A decision without anything that the compiler said about it, but told its caller. -/
def plain (t : Tree) (d : Decision) : Decision :=
  { above := d.above, site := d.site, calleeHash := d.calleeHash, caller := some (t.callerOf d.above) }

theorem find?_eq_none_iff {p : CallPath} : t.find? p = none ↔ ∀ d ∈ t.decisions, d.path ≠ p := by
  simp [find?]

theorem find?_path {d : Decision} (hd : d ∈ t.decisions) : t.find? d.path = some d := by
  have hsome : (t.decisions.find? (·.path = d.path)).isSome := List.find?_isSome.2 ⟨d, hd, decide_eq_true rfl⟩
  obtain ⟨e, he⟩ := Option.isSome_iff_exists.1 hsome
  have hpath : e.path = d.path := by simpa using List.find?_some he
  rw [find?, he, List.inj_on_of_nodup_map t.nodup_paths (List.mem_of_find?_eq_some he) hd hpath]

theorem callerOf_path {d : Decision} (hd : d ∈ t.decisions) : t.callerOf d.path = d.callee := by
  rw [callerOf, find?_path hd]
  rfl

theorem callerOf_nil (t : Tree) : t.callerOf [] = t.root := by
  rw [callerOf, find?_eq_none_iff.2 fun d _ => d.path_ne_nil]
  rfl

/-- The tree of the plain decisions. -/
def bare (t : Tree) : Tree where
  root := t.root
  decisions := t.decisions.map t.plain
  ordered := List.pairwise_map.2 t.ordered
  supported := by
    intro d hd
    obtain ⟨e, he, rfl⟩ := List.mem_map.1 hd
    refine (t.supported e he).imp_right ?_
    rintro ⟨parent, hparent, hpath⟩
    exact ⟨t.plain parent, List.mem_map_of_mem hparent, hpath⟩

theorem below_bare (t : Tree) (p : CallPath) : t.bare.below p = (t.below p).map t.plain :=
  List.filter_map

end Tree

end InlineImpact
