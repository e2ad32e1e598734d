import InlineImpact.Proofs.Outcome
import InlineImpact.Proofs.Tree.Formation

/-!
Changing a tree by one decision. A decision goes in if its path is free and what it stands on is there; it
comes out if it is there and nothing stands on it. Both are told by what the tree has afterwards, so they
undo each other and two insertions may change places. After any number of changes the tree has what was
put in and not taken out since.
-/
namespace InlineImpact

open scoped List

namespace Tree

variable {t u v : Tree} {d e : Decision}

section Insert

/-- No decision stands on itself. -/
theorem supported_cons_self {ds : List Decision} : d.Supported (d :: ds) ↔ d.Supported ds := by
  rw [Decision.supported_iff, Decision.supported_iff, List.map_cons, List.mem_cons]
  simp [Decision.path]

theorem has_eq_false_of_free (h : ∀ e ∈ t.decisions, e.path ≠ d.path) : t.has d = false := by
  rw [has, List.any_eq_false]
  intro e he hkey
  exact h e he (congrArg Prod.fst (of_decide_eq_true hkey))

theorem nodup_keys_concat (h : t.has d = false) : ((t.decisions ++ [d]).map Decision.key).Nodup := by
  have hnew : d.key ∉ t.decisions.map Decision.key := by simp [← has_iff, h]
  rw [((List.perm_append_singleton d t.decisions).map Decision.key).nodup_iff]
  exact List.nodup_cons.2 ⟨hnew, t.nodup_keys⟩

/-- Nothing contends for a path as long as the decision's is free. -/
theorem nodup_paths_concat_iff (h : t.has d = false) :
    ((Decision.distinct (t.decisions ++ [d])).map Decision.path).Nodup ↔ ∀ e ∈ t.decisions, e.path ≠ d.path := by
  rw [Decision.distinct_of_nodup (nodup_keys_concat h),
    ((List.perm_append_singleton d t.decisions).map Decision.path).nodup_iff, List.map_cons, List.nodup_cons]
  simp [t.nodup_paths]

/-- Where a tree has one decision more than another one, nothing else is there. -/
theorem free_of_perm (h : u.decisions ~ d :: t.decisions) : ∀ e ∈ t.decisions, e.path ≠ d.path := by
  have hpaths := (h.map Decision.path).nodup_iff.1 u.nodup_paths
  intro e he hpath
  exact (List.nodup_cons.1 hpaths).1 (hpath ▸ List.mem_map_of_mem he)

/-- A decision that is new is put to the others. -/
theorem insert_of_new (h : t.has d = false) : t.insert d = ofDecisions t.root (t.decisions ++ [d]) := by
  simp [insert, h]

theorem insert_of_has (h : t.has d = true) : t.insert d = .error (.alreadyPresent d.path) := if_pos h

/-- An insertion adds the decision and nothing else. -/
theorem insert_eq_ok_iff :
    t.insert d = .ok u ↔ u.root = t.root ∧ u.decisions.Perm (d :: t.decisions) := by
  have hperm := List.perm_append_singleton d t.decisions
  constructor
  · intro h
    cases hhas : t.has d with
    | true =>
      rw [insert_of_has hhas] at h
      cases h
    | false =>
      rw [insert_of_new hhas, ofDecisions_eq_ok_iff, Decision.distinct_of_nodup (nodup_keys_concat hhas)] at h
      exact ⟨h.1, h.2.trans hperm⟩
  · rintro ⟨hroot, h⟩
    have hhas := has_eq_false_of_free (free_of_perm h)
    rw [insert_of_new hhas, ofDecisions_eq_ok_iff, Decision.distinct_of_nodup (nodup_keys_concat hhas)]
    exact ⟨hroot, h.trans hperm.symm⟩

/-- There is room for a decision if nothing stands at its path and what it stands on is there. -/
theorem exists_insert_iff : (∃ u, t.insert d = .ok u) ↔
    (∀ e ∈ t.decisions, e.path ≠ d.path) ∧ d.Supported t.decisions := by
  constructor
  · rintro ⟨u, hu⟩
    obtain ⟨-, hperm⟩ := insert_eq_ok_iff.1 hu
    constructor
    · exact free_of_perm hperm
    · rw [← supported_cons_self]
      exact (u.supported d (hperm.mem_iff.2 (.head _))).mono hperm.subset
  · rintro ⟨hfree, hsupported⟩
    have hhas := has_eq_false_of_free hfree
    rw [insert_of_new hhas]
    apply exists_ofDecisions
    · exact (nodup_paths_concat_iff hhas).2 hfree
    · intro e he
      have hsub : t.decisions ⊆ t.decisions ++ [d] := List.subset_append_left _ _
      rcases List.mem_append.1 he with he | he
      · exact (t.supported e he).mono hsub
      · rw [List.mem_singleton.1 he]
        exact hsupported.mono hsub

/-- A path is taken if something else is inlined there. -/
theorem insert_of_contended (hhas : t.has d = false) (he : e ∈ t.decisions) (hpath : e.path = d.path) :
    t.insert d = .error (.duplicatePath t.root) := by
  rw [insert_of_new hhas]
  apply ofDecisions_of_contended
  rw [nodup_paths_concat_iff hhas]
  exact fun hfree => hfree e he hpath

theorem insert_of_unsupported (hfree : ∀ e ∈ t.decisions, e.path ≠ d.path)
    (h : ¬d.Supported t.decisions) : t.insert d = .error (.missingParent d.path t.root) := by
  have hhas := has_eq_false_of_free hfree
  have hlacks : ¬d.Supported (t.decisions ++ [d]) := by
    intro hsupported
    exact h (supported_cons_self.1 (hsupported.mono (List.perm_append_singleton d t.decisions).subset))
  obtain ⟨e, he, hblamed, heq⟩ :=
    ofDecisions_of_unsupported t.root ((nodup_paths_concat_iff hhas).2 hfree) ⟨d, by simp, hlacks⟩
  rw [insert_of_new hhas, heq]
  -- All others have what they stand on, so the new one is blamed.
  rcases List.mem_append.1 he with he | he
  · exact (hblamed ((t.supported e he).mono (List.subset_append_left _ _))).elim
  · rw [List.mem_singleton.1 he]

/-- Every insertion that is refused is refused for one of three causes, and it names what is refused. -/
theorem insert_fault {fault : TreeFault} (h : t.insert d = .error fault) :
    fault ∈ [.alreadyPresent d.path, .duplicatePath t.root, .missingParent d.path t.root] := by
  cases hhas : t.has d with
  | true =>
    rw [insert_of_has hhas] at h
    simp [← Except.error.inj h]
  | false =>
    by_cases hfree : ∀ e ∈ t.decisions, e.path ≠ d.path
    · have hlacks : ¬d.Supported t.decisions := by
        intro hsupported
        obtain ⟨u, hu⟩ := exists_insert_iff.2 ⟨hfree, hsupported⟩
        cases hu.symm.trans h
      rw [insert_of_unsupported hfree hlacks] at h
      simp [← Except.error.inj h]
    · push Not at hfree
      obtain ⟨e, he, hpath⟩ := hfree
      rw [insert_of_contended hhas he hpath] at h
      simp [← Except.error.inj h]

/-- Two decisions at different paths go in in either order. -/
theorem insert_comm (hne : d.path ≠ e.path) (hu : t.insert d = .ok u) (hv : t.insert e = .ok v) :
    ∃ w, u.insert e = .ok w ∧ v.insert d = .ok w := by
  obtain ⟨hroot, hperm⟩ := insert_eq_ok_iff.1 hu
  obtain ⟨hroot', hperm'⟩ := insert_eq_ok_iff.1 hv
  obtain ⟨hfree, hsupported⟩ := exists_insert_iff.1 ⟨v, hv⟩
  have hroom : (∀ x ∈ u.decisions, x.path ≠ e.path) ∧ e.Supported u.decisions := by
    constructor
    · intro x hx
      rcases List.mem_cons.1 (hperm.mem_iff.1 hx) with rfl | hx
      · exact hne
      · exact hfree x hx
    · exact hsupported.mono fun x hx => hperm.mem_iff.2 (.tail _ hx)
  obtain ⟨w, hw⟩ := exists_insert_iff.2 hroom
  obtain ⟨hroot'', hperm''⟩ := insert_eq_ok_iff.1 hw
  refine ⟨w, hw, insert_eq_ok_iff.2 ⟨?_, ?_⟩⟩
  · rw [hroot'', hroot, hroot']
  · calc w.decisions
      _ ~ e :: u.decisions := hperm''
      _ ~ e :: d :: t.decisions := hperm.cons e
      _ ~ d :: e :: t.decisions := .swap d e t.decisions
      _ ~ d :: v.decisions := (hperm'.cons d).symm

end Insert

section Erase

theorem below_eq_nil_iff {p : CallPath} : t.below p = [] ↔ ∀ e ∈ t.decisions, e.above ≠ p := by
  simp [below]

/-- A leaf is a decision of the tree that nothing stands on. -/
theorem isLeaf_iff : t.isLeaf d = true ↔
    (∃ e ∈ t.decisions, e.key = d.key) ∧ ∀ e ∈ t.decisions, e.above ≠ d.path := by
  rw [isLeaf, Bool.and_eq_true, has_iff, List.isEmpty_iff, below_eq_nil_iff, List.mem_map]

theorem has_of_isLeaf (h : t.isLeaf d = true) : t.has d = true := by
  rw [isLeaf, Bool.and_eq_true] at h
  exact h.1

theorem erase_of_not_has (h : t.has d = false) : t.erase d = .error (.notPresent d.path) := by
  simp [erase, h]

theorem erase_of_inner (hhas : t.has d = true) (h : t.isLeaf d = false) :
    t.erase d = .error (.hasDescendants d.path) := by
  simp [erase, hhas, h]

/-- A leaf is taken from the others. -/
theorem erase_of_isLeaf (h : t.isLeaf d = true) :
    t.erase d = ofDecisions t.root (t.decisions.filter (·.key ≠ d.key)) := by
  simp [erase, h, has_of_isLeaf h]

theorem nodup_keys_filter (t : Tree) (p : Decision → Bool) : ((t.decisions.filter p).map Decision.key).Nodup :=
  t.nodup_keys.sublist (List.filter_sublist.map Decision.key)

/-- One decision has a given identity, the others have other ones. -/
theorem perm_cons_filter (he : e ∈ t.decisions) :
    t.decisions.Perm (e :: t.decisions.filter (·.key ≠ e.key)) := by
  have hnodup : (e :: t.decisions.filter (·.key ≠ e.key)).Nodup := by
    refine List.nodup_cons.2 ⟨by simp, (t.nodup_keys_filter _).of_map⟩
  refine (List.perm_ext_iff_of_nodup t.nodup_keys.of_map hnodup).2 fun x => ?_
  have hkey : x ∈ t.decisions → (x.key = e.key ↔ x = e) := fun hx =>
    ⟨fun h => List.inj_on_of_nodup_map t.nodup_keys hx he h, fun h => h ▸ rfl⟩
  by_cases hx : x = e
  · simp [hx, he]
  · simp only [List.mem_cons, hx, false_or, List.mem_filter]
    constructor
    · intro hmem
      simp [hmem, hkey hmem, hx]
    · exact fun h => h.1

theorem exists_erase_iff : (∃ u, t.erase d = .ok u) ↔ t.isLeaf d = true := by
  constructor
  · rintro ⟨u, hu⟩
    cases hhas : t.has d with
    | false =>
      rw [erase_of_not_has hhas] at hu
      cases hu
    | true =>
      by_contra hleaf
      rw [erase_of_inner hhas (by simpa using hleaf)] at hu
      cases hu
  · intro h
    rw [erase_of_isLeaf h]
    apply exists_ofDecisions
    · rw [Decision.distinct_of_nodup (t.nodup_keys_filter _)]
      exact t.nodup_paths.sublist (List.filter_sublist.map Decision.path)
    · intro e he
      obtain ⟨he, -⟩ := List.mem_filter.1 he
      -- What a decision stands on is not what is taken away.
      refine (t.supported e he).imp_right fun ⟨x, hx, hpath⟩ => ⟨x, List.mem_filter.2 ⟨hx, ?_⟩, hpath⟩
      simp only [ne_eq, decide_not, Bool.not_eq_true', decide_eq_false_iff_not]
      intro hkey
      exact (isLeaf_iff.1 h).2 e he (hpath.symm.trans (congrArg Prod.fst hkey))

/-- A decision that all others do without is a leaf. -/
theorem isLeaf_of_perm (h : t.decisions.map Decision.key ~ d.key :: u.decisions.map Decision.key) :
    t.isLeaf d = true := by
  have hpaths : (d.path :: u.decisions.map Decision.path).Nodup := by
    have hperm := h.map Prod.fst
    rw [← Decision.map_path_eq, List.map_cons, ← Decision.map_path_eq] at hperm
    exact hperm.nodup_iff.1 t.nodup_paths
  refine isLeaf_iff.2 ⟨List.mem_map.1 (h.mem_iff.2 (.head _)), fun x hx habove => ?_⟩
  rcases List.mem_cons.1 (h.mem_iff.1 (List.mem_map_of_mem hx)) with hkey | hkey
  · have hself : x.path = d.path := congrArg Prod.fst hkey
    rw [← hself] at habove
    simp [Decision.path] at habove
  · -- Something of the others stands on the decision, so one of them has its path.
    obtain ⟨y, hy, hkey⟩ := List.mem_map.1 hkey
    have hsupported := Decision.supported_iff.1 (u.supported y hy)
    rw [(Decision.eq_of_key_eq hkey).1, habove] at hsupported
    rcases hsupported with hroot | hmem
    · exact d.path_ne_nil hroot
    · exact (List.nodup_cons.1 hpaths).1 hmem

/-- An erasure takes the decision away and nothing else. -/
theorem erase_eq_ok_iff : t.erase d = .ok u ↔
    u.root = t.root ∧ ∃ e, e.key = d.key ∧ t.decisions.Perm (e :: u.decisions) := by
  have herased {u : Tree} (h : t.erase d = .ok u) :
      u.root = t.root ∧ ∃ e, e.key = d.key ∧ t.decisions.Perm (e :: u.decisions) := by
    have hleaf := exists_erase_iff.1 ⟨u, h⟩
    rw [erase_of_isLeaf hleaf, ofDecisions_eq_ok_iff, Decision.distinct_of_nodup (t.nodup_keys_filter _)] at h
    obtain ⟨e, he, hkey⟩ := (isLeaf_iff.1 hleaf).1
    refine ⟨h.1, e, hkey, (perm_cons_filter he).trans (.cons e ?_)⟩
    simpa only [hkey] using h.2.symm
  refine ⟨herased, ?_⟩
  rintro ⟨hroot, e, hkey, hperm⟩
  have hkeys : t.decisions.map Decision.key ~ d.key :: u.decisions.map Decision.key :=
    hkey ▸ hperm.map Decision.key
  obtain ⟨w, hw⟩ := exists_erase_iff.2 (isLeaf_of_perm hkeys)
  obtain ⟨hroot', e', hkey', hperm'⟩ := herased hw
  obtain rfl : e = e' := by
    refine List.inj_on_of_nodup_map t.nodup_keys (hperm.mem_iff.2 (.head _)) (hperm'.mem_iff.2 (.head _)) ?_
    exact hkey.trans hkey'.symm
  rw [hw, eq_of_perm (hroot'.trans hroot.symm) (hperm'.symm.trans hperm).cons_inv]

theorem erase_fault {fault : TreeFault} (h : t.erase d = .error fault) :
    fault ∈ [.notPresent d.path, .hasDescendants d.path] := by
  cases hhas : t.has d with
  | false =>
    rw [erase_of_not_has hhas] at h
    simp [← Except.error.inj h]
  | true =>
    cases hleaf : t.isLeaf d with
    | false =>
      rw [erase_of_inner hhas hleaf] at h
      simp [← Except.error.inj h]
    | true =>
      obtain ⟨u, hu⟩ := exists_erase_iff.2 hleaf
      cases hu.symm.trans h

end Erase

section Inverse

/-- What was just put in is a leaf, and comes out again. -/
theorem erase_of_insert (h : t.insert d = .ok u) : u.erase d = .ok t := by
  obtain ⟨hroot, hperm⟩ := insert_eq_ok_iff.1 h
  exact erase_eq_ok_iff.2 ⟨hroot.symm, d, rfl, hperm⟩

/-- What was just taken out goes in again; it may tell something else besides. -/
theorem exists_insert_of_erase (h : t.erase d = .ok u) : ∃ v, u.insert d = .ok v ∧ v.Alike t := by
  obtain ⟨hroot, e, hkey, hperm⟩ := erase_eq_ok_iff.1 h
  have hpath : e.path = d.path := congrArg Prod.fst hkey
  have hroom : (∀ x ∈ u.decisions, x.path ≠ d.path) ∧ d.Supported u.decisions := by
    constructor
    · exact hpath ▸ free_of_perm hperm
    · have hsupported := (t.supported e (hperm.mem_iff.2 (.head _))).mono hperm.subset
      rw [supported_cons_self, Decision.supported_iff, (Decision.eq_of_key_eq hkey).1] at hsupported
      exact Decision.supported_iff.2 hsupported
  obtain ⟨v, hv⟩ := exists_insert_iff.2 hroom
  obtain ⟨hroot', hperm'⟩ := insert_eq_ok_iff.1 hv
  refine ⟨v, hv, hroot'.trans hroot, fun k => ?_⟩
  rw [(hperm'.map Decision.key).mem_iff, (hperm.map Decision.key).mem_iff, List.map_cons, List.map_cons, hkey]

end Inverse

section Edits

/-- A change by one decision. -/
inductive Edit where
  | insert (d : Decision)
  | erase (d : Decision)

def Edit.apply (t : Tree) : Edit → Except TreeFault Tree
  | insert d => t.insert d
  | erase d => t.erase d

/-- Some changes one after another; the first that is refused ends them. -/
def Edit.applyAll (t : Tree) (edits : List Edit) : Except TreeFault Tree := edits.foldlM apply t

/-- What a change makes of some identities if nothing is checked. -/
def Edit.onKeys (ks : List (CallPath × Int)) : Edit → List (CallPath × Int)
  | insert d => d.key :: ks
  | erase d => ks.erase d.key

variable {edit : Edit} {edits : List Edit}

theorem keys_of_apply (h : edit.apply t = .ok u) :
    u.root = t.root ∧ (u.decisions.map Decision.key).Perm (edit.onKeys (t.decisions.map Decision.key)) := by
  cases edit with
  | insert d =>
    obtain ⟨hroot, hperm⟩ := insert_eq_ok_iff.1 h
    exact ⟨hroot, hperm.map Decision.key⟩
  | erase d =>
    obtain ⟨hroot, e, hkey, hperm⟩ := erase_eq_ok_iff.1 h
    have hkeys := (hperm.map Decision.key).erase d.key
    rw [List.map_cons, hkey, List.erase_cons_head] at hkeys
    exact ⟨hroot, hkeys.symm⟩

theorem perm_onKeys {ks ls : List (CallPath × Int)} (h : ks.Perm ls) (edit : Edit) :
    (edit.onKeys ks).Perm (edit.onKeys ls) := by
  cases edit with
  | insert d => exact h.cons d.key
  | erase d => exact h.erase d.key

theorem perm_foldl_onKeys {ks ls : List (CallPath × Int)} (h : ks.Perm ls) (edits : List Edit) :
    (edits.foldl Edit.onKeys ks).Perm (edits.foldl Edit.onKeys ls) := by
  induction edits generalizing ks ls with
  | nil => exact h
  | cons edit rest ih => exact ih (perm_onKeys h edit)

/-- By induction on the changes: a tree has what was put in and not taken out since. -/
theorem keys_of_applyAll (h : Edit.applyAll t edits = .ok u) : u.root = t.root ∧
    (u.decisions.map Decision.key).Perm (edits.foldl Edit.onKeys (t.decisions.map Decision.key)) := by
  induction edits generalizing t with
  | nil =>
    cases h
    exact ⟨rfl, .refl _⟩
  | cons edit rest ih =>
    rw [Edit.applyAll, List.foldlM_cons] at h
    obtain ⟨v, hv, h⟩ := exists_of_bind_eq_ok h
    obtain ⟨hroot, hkeys⟩ := keys_of_apply hv
    obtain ⟨hroot', hkeys'⟩ := ih h
    exact ⟨hroot'.trans hroot, hkeys'.trans (perm_foldl_onKeys hkeys rest)⟩

end Edits

/-- When a decision goes into a tree and when it comes out, and what that makes of the tree. The two undo
each other, and insertions at different paths may change places. Whatever is made of nothing by changes that
were all accepted has different paths and, with each decision, all those above it. -/
theorem edit_laws (t : Tree) (d : Decision) :
    ((∃ u, t.insert d = .ok u) ↔
      (∀ x ∈ t.decisions, x.path ≠ d.path) ∧ (d.depth = 1 ∨ ∃ x ∈ t.decisions, x.path = d.above)) ∧
    (∀ u, t.insert d = .ok u → u.root = t.root ∧ u.decisions ~ d :: t.decisions ∧
      u.isLeaf d = true ∧ u.erase d = .ok t) ∧
    ((∃ u, t.erase d = .ok u) ↔
      (∃ x ∈ t.decisions, x.key = d.key) ∧ ∀ x ∈ t.decisions, x.above ≠ d.path) ∧
    (∀ u, t.erase d = .ok u → u.root = t.root ∧
      (∃ x, x.key = d.key ∧ t.decisions ~ x :: u.decisions) ∧
      ∃ v, u.insert d = .ok v ∧ v.same t = true) ∧
    (∀ fault, (t.insert d = .error fault →
        fault ∈ [.alreadyPresent d.path, .duplicatePath t.root, .missingParent d.path t.root]) ∧
      (t.erase d = .error fault → fault ∈ [.notPresent d.path, .hasDescendants d.path])) ∧
    (∀ root edits u, Edit.applyAll (.empty root) edits = .ok u →
      u.root = root ∧ u.decisions.map Decision.key ~ edits.foldl Edit.onKeys [] ∧
      (u.decisions.map Decision.path).Nodup ∧
      ∀ x ∈ u.decisions, ∀ p, p ≠ [] → p <+: x.path → ∃ y ∈ u.decisions, y.path = p) ∧
    ∀ e u v, d.path ≠ e.path → t.insert d = .ok u → t.insert e = .ok v →
      ∃ w, u.insert e = .ok w ∧ v.insert d = .ok w := by
  refine ⟨?_, fun u hu => ?_, ?_, fun u hu => ?_, fun fault => ⟨insert_fault, erase_fault⟩,
    fun root edits u hu => ?_, fun e u v hne hu hv => insert_comm hne hu hv⟩
  · rw [exists_insert_iff, Decision.Supported, Decision.depth_eq_one_iff]
  · obtain ⟨hroot, hperm⟩ := insert_eq_ok_iff.1 hu
    have herase := erase_of_insert hu
    exact ⟨hroot, hperm, exists_erase_iff.1 ⟨t, herase⟩, herase⟩
  · rw [exists_erase_iff, isLeaf_iff]
  · obtain ⟨hroot, hrest⟩ := erase_eq_ok_iff.1 hu
    obtain ⟨v, hv, halike⟩ := exists_insert_of_erase hu
    exact ⟨hroot, hrest, v, hv, same_iff_alike.2 halike⟩
  · obtain ⟨hroot, hkeys⟩ := keys_of_applyAll hu
    exact ⟨hroot, hkeys, u.nodup_paths, fun x hx p hne hfront => exists_ancestor hx hfront hne⟩

end Tree

end InlineImpact
