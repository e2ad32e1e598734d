import InlineImpact.Proofs.Tree.Listing

/-!
Which decisions make a tree. They do if no two of them contend for one path and each stands in the root or
below another one; the tree then has these decisions and no others. Which trees are compared as equal: those
with one root and the same paths and hashes, whatever else their decisions tell.
-/
namespace InlineImpact

namespace Decision

variable {ds es : List Decision} {d : Decision}

theorem distinct_sublist (ds : List Decision) : (distinct ds).Sublist ds := by
  induction ds with
  | nil => exact .slnil
  | cons d rest ih => exact (List.filter_sublist.trans ih).cons_cons d

/-- Dropping repeated identities loses none. -/
theorem mem_keys_distinct {ds : List Decision} {k : CallPath × Int} :
    k ∈ (distinct ds).map key ↔ k ∈ ds.map key := by
  induction ds with
  | nil => rfl
  | cons d rest ih =>
    simp only [distinct, List.map_cons, List.mem_cons, ← ih]
    by_cases hk : k = d.key
    · simp [hk]
    · simp only [hk, false_or, List.mem_map, List.mem_filter]
      refine exists_congr fun e => and_congr_left fun hkey => and_iff_left ?_
      simpa [hkey] using hk

theorem nodup_keys_distinct (ds : List Decision) : ((distinct ds).map key).Nodup := by
  induction ds with
  | nil => exact .nil
  | cons d rest ih =>
    rw [distinct, List.map_cons, List.nodup_cons]
    constructor
    · simp
    · exact ih.sublist (List.filter_sublist.map key)

/-- Paths are those of the identities. -/
theorem map_path_eq (ds : List Decision) : ds.map path = (ds.map key).map Prod.fst := by
  simp [key]

theorem mem_paths_distinct {p : CallPath} : p ∈ (distinct ds).map path ↔ p ∈ ds.map path := by
  simp only [map_path_eq, List.mem_map (f := Prod.fst), mem_keys_distinct]

theorem depth_eq_one_iff : d.depth = 1 ↔ d.above = [] := by
  simp [depth]

/-- All that counts of the others is where they stand. -/
theorem supported_iff : d.Supported ds ↔ d.above = [] ∨ d.above ∈ ds.map path := by
  rw [Supported, List.mem_map]

theorem supported_distinct : d.Supported (distinct ds) ↔ d.Supported ds := by
  rw [supported_iff, supported_iff, mem_paths_distinct]

theorem Supported.mono (h : d.Supported ds) (hsub : ds ⊆ es) : d.Supported es :=
  h.imp_right fun ⟨e, he, hpath⟩ => ⟨e, hsub he, hpath⟩

/-- The identity of a decision tells where it stands and what is inlined there. -/
theorem eq_of_key_eq {d e : Decision} (h : d.key = e.key) :
    d.above = e.above ∧ d.site = e.site ∧ d.calleeHash = e.calleeHash := by
  obtain ⟨hpath, hhash⟩ := Prod.mk.inj h
  obtain ⟨habove, hsite⟩ := List.append_inj' hpath rfl
  exact ⟨habove, List.singleton_inj.1 hsite, hhash⟩

end Decision

namespace Tree

variable {t u : Tree} {root : MethodId} {ds : List Decision}

/-- A tree keeps its decisions in order, so it is determined by which ones they are. -/
theorem eq_of_perm (hroot : t.root = u.root) (h : t.decisions.Perm u.decisions) : t = u := by
  have ht := ofDecisions_of_perm (t := t) (.refl t.decisions)
  rw [hroot, ofDecisions_of_perm h] at ht
  exact (Except.ok.inj ht).symm

/-- A tree has the decisions that it is made of, each identity once. -/
theorem ofDecisions_eq_ok_iff :
    ofDecisions root ds = .ok t ↔ t.root = root ∧ t.decisions.Perm (Decision.distinct ds) := by
  constructor
  · intro h
    unfold ofDecisions at h
    dsimp only at h
    split at h
    · split at h
      · cases h
      · rw [← Except.ok.inj h]
        exact ⟨rfl, List.mergeSort_perm _ _⟩
    · cases h
  · rintro ⟨rfl, h⟩
    refine ofDecisions_of_sorted t.root ?_ t.ordered t.supported
    exact Decision.mergeSort_eq_of_perm h.symm t.ordered

theorem root_of_ofDecisions (h : ofDecisions root ds = .ok t) : t.root = root :=
  (ofDecisions_eq_ok_iff.1 h).1

/-- Decisions at different paths that stand on each other make a tree, whatever their order is. -/
theorem exists_ofDecisions (root : MethodId) (hpaths : ((Decision.distinct ds).map Decision.path).Nodup)
    (hsupported : ∀ d ∈ ds, d.Supported ds) : ∃ t, ofDecisions root ds = .ok t := by
  have hperm : ((Decision.distinct ds).mergeSort Decision.le).Perm (Decision.distinct ds) :=
    List.mergeSort_perm _ _
  refine ⟨_, ofDecisions_of_sorted root rfl (Decision.pairwise_before_mergeSort hpaths) fun d hd => ?_⟩
  have hd' : d ∈ Decision.distinct ds := hperm.mem_iff.1 hd
  have := Decision.supported_distinct.2 (hsupported d ((Decision.distinct_sublist ds).subset hd'))
  exact this.mono hperm.symm.subset

theorem ofDecisions_of_contended (root : MethodId)
    (h : ¬((Decision.distinct ds).map Decision.path).Nodup) :
    ofDecisions root ds = .error (.duplicatePath root) := by
  have hperm : ((Decision.distinct ds).mergeSort Decision.le).Perm (Decision.distinct ds) :=
    List.mergeSort_perm _ _
  have hunordered : ¬((Decision.distinct ds).mergeSort Decision.le).Pairwise Decision.Before := by
    intro ho
    apply h
    rw [← (hperm.map Decision.path).nodup_iff]
    exact List.pairwise_map.2 (ho.imp Decision.path_ne_of_before)
  unfold ofDecisions
  dsimp only
  rw [dif_neg hunordered]

/-- A decision that lacks the one above it is blamed. -/
theorem ofDecisions_of_unsupported (root : MethodId)
    (hpaths : ((Decision.distinct ds).map Decision.path).Nodup) (h : ∃ d ∈ ds, ¬d.Supported ds) :
    ∃ d ∈ ds, ¬d.Supported ds ∧ ofDecisions root ds = .error (.missingParent d.path root) := by
  have hperm : ((Decision.distinct ds).mergeSort Decision.le).Perm (Decision.distinct ds) :=
    List.mergeSort_perm _ _
  have hiff (d : Decision) :
      d.Supported ((Decision.distinct ds).mergeSort Decision.le) ↔ d.Supported ds := by
    rw [Decision.supported_iff, (hperm.map Decision.path).mem_iff, ← Decision.supported_iff,
      Decision.supported_distinct]
  obtain ⟨d, hd, hbare⟩ := h
  unfold ofDecisions
  dsimp only
  rw [dif_pos (Decision.pairwise_before_mergeSort hpaths)]
  split
  · rename_i e he
    have hmem := hperm.mem_iff.1 (List.mem_of_find?_eq_some he)
    have hlacks : ¬e.Supported ds := by
      rw [← hiff]
      simpa using List.find?_some he
    exact ⟨e, (Decision.distinct_sublist ds).subset hmem, hlacks, rfl⟩
  · rename_i hnone
    have hall := List.find?_eq_none.1 hnone
    simp only [Bool.not_eq_true', decide_eq_false_iff_not, not_not] at hall
    obtain ⟨e, he, hkey⟩ := List.mem_map.1 (Decision.mem_keys_distinct.2 (List.mem_map_of_mem hd))
    have hsupported := (hiff e).1 (hall e (hperm.mem_iff.2 he))
    rw [Decision.supported_iff, (Decision.eq_of_key_eq hkey).1, ← Decision.supported_iff] at hsupported
    exact (hbare hsupported).elim

/-- One root, and the same paths with the same hashes. -/
structure Alike (t u : Tree) : Prop where
  root : t.root = u.root
  keys : ∀ k, k ∈ t.decisions.map Decision.key ↔ k ∈ u.decisions.map Decision.key

theorem Alike.symm (h : t.Alike u) : u.Alike t := ⟨h.root.symm, fun k => (h.keys k).symm⟩

theorem Alike.perm_keys (h : t.Alike u) :
    (t.decisions.map Decision.key).Perm (u.decisions.map Decision.key) :=
  (List.perm_ext_iff_of_nodup t.nodup_keys u.nodup_keys).2 h.keys

theorem Alike.size_eq (h : t.Alike u) : t.size = u.size := by
  simpa [size] using h.perm_keys.length_eq

theorem has_iff {d : Decision} : t.has d = true ↔ d.key ∈ t.decisions.map Decision.key := by
  simp [has]

theorem isSubtreeOf_iff : t.isSubtreeOf u = true ↔
    t.root = u.root ∧ ∀ k ∈ t.decisions.map Decision.key, k ∈ u.decisions.map Decision.key := by
  simp [isSubtreeOf, has]

/-- It is what the comparison of trees tells. -/
theorem same_iff_alike : t.same u = true ↔ t.Alike u := by
  rw [same, Bool.and_eq_true, isSubtreeOf_iff, isSubtreeOf_iff]
  constructor
  · rintro ⟨⟨hroot, hsub⟩, -, hsub'⟩
    exact ⟨hroot, fun k => ⟨hsub k, hsub' k⟩⟩
  · rintro ⟨hroot, hkeys⟩
    exact ⟨⟨hroot, fun k => (hkeys k).1⟩, hroot.symm, fun k => (hkeys k).2⟩

/-- Whatever order the decisions come in, they make the same tree up to what they tell besides. -/
theorem alike_of_ofDecisions {es : List Decision} (ht : ofDecisions root ds = .ok t)
    (hu : ofDecisions root es = .ok u) (h : ∀ k, k ∈ ds.map Decision.key ↔ k ∈ es.map Decision.key) :
    t.Alike u := by
  have hmade {ds : List Decision} {t : Tree} (h : ofDecisions root ds = .ok t) :
      t.root = root ∧ ∀ k, k ∈ t.decisions.map Decision.key ↔ k ∈ ds.map Decision.key := by
    obtain ⟨hroot, hperm⟩ := ofDecisions_eq_ok_iff.1 h
    exact ⟨hroot, fun k => (hperm.map Decision.key).mem_iff.trans Decision.mem_keys_distinct⟩
  obtain ⟨hroot, hkeys⟩ := hmade ht
  obtain ⟨hroot', hkeys'⟩ := hmade hu
  exact ⟨hroot.trans hroot'.symm, fun k => (hkeys k).trans ((h k).trans (hkeys' k).symm)⟩

theorem Alike.exists_key_eq (h : t.Alike u) {d : Decision} (hd : d ∈ t.decisions) :
    ∃ e ∈ u.decisions, e.key = d.key :=
  List.mem_map.1 ((h.keys d.key).1 (List.mem_map_of_mem hd))

end Tree

end InlineImpact
