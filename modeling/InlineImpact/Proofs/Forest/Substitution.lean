import InlineImpact.Proofs.Forest.Extract

/-!
Extracting a part of a tree by decisions. A decision is looked for by its path, so one that was taken from
another tree stands for the tree's own decision at that path, also if another body is inlined there. The
part consists of the decisions that were given if and only if all of them are decisions of the tree.
-/
namespace InlineImpact

namespace Tree

variable {t u : Tree} {ds : List Decision}

/-- A part has the decisions that were given, if they are decisions of the tree. -/
theorem keys_restrict_iff (h : t.restrict (ds.map Decision.path) = .ok u) :
    (∀ k, k ∈ u.decisions.map Decision.key ↔ k ∈ ds.map Decision.key) ↔ ∀ d ∈ ds, t.has d = true := by
  obtain ⟨-, -, hdecisions⟩ := restrict_eq_ok_iff.1 h
  have hmem (e : Decision) : e ∈ u.decisions ↔ e ∈ t.decisions ∧ ∃ d ∈ ds, d.path = e.path := by
    simp [hdecisions]
  constructor
  · intro hkeys d hd
    obtain ⟨e, he, hkey⟩ := List.mem_map.1 ((hkeys d.key).2 (List.mem_map_of_mem hd))
    exact has_iff.2 (hkey ▸ List.mem_map_of_mem ((hmem e).1 he).1)
  · intro hhas k
    constructor
    · intro hk
      obtain ⟨e, he, rfl⟩ := List.mem_map.1 hk
      obtain ⟨hown, d, hd, hpath⟩ := (hmem e).1 he
      obtain ⟨e', he', hkey⟩ := List.mem_map.1 (has_iff.1 (hhas d hd))
      have hsame : e' = e :=
        List.inj_on_of_nodup_map t.nodup_paths he' hown ((congrArg Prod.fst hkey).trans hpath)
      exact List.mem_map.2 ⟨d, hd, hsame ▸ hkey.symm⟩
    · intro hk
      obtain ⟨d, hd, rfl⟩ := List.mem_map.1 hk
      obtain ⟨e, he, hkey⟩ := List.mem_map.1 (has_iff.1 (hhas d hd))
      exact List.mem_map.2 ⟨e, (hmem e).2 ⟨he, d, hd, (congrArg Prod.fst hkey).symm⟩, hkey⟩

/-- In place of a decision of another tree, the part has the tree's own one with another hash. -/
theorem exists_substitute {d : Decision} (h : t.restrict (ds.map Decision.path) = .ok u) (hd : d ∈ ds)
    (hforeign : t.has d = false) :
    ∃ e ∈ u.decisions, e ∈ t.decisions ∧ e.path = d.path ∧ e.calleeHash ≠ d.calleeHash := by
  obtain ⟨hknown, -, hdecisions⟩ := restrict_eq_ok_iff.1 h
  obtain ⟨e, he, hpath⟩ := hknown d.path (List.mem_map_of_mem hd)
  have hpart : e ∈ u.decisions := by
    rw [hdecisions, List.mem_filter, hpath]
    exact ⟨he, decide_eq_true (List.mem_map_of_mem hd)⟩
  refine ⟨e, hpart, he, hpath, fun hhash => ?_⟩
  have hhas : t.has d = true := has_iff.2 (List.mem_map.2 ⟨e, he, Prod.ext hpath hhash⟩)
  rw [hforeign] at hhas
  cases hhas

end Tree

namespace Forest

variable {f : Forest} {root : MethodId}

/-- Take any decisions, of this tree or of another one. A part can be extracted if the tree has some decision at
each of their paths and these are closed. It consists of the given decisions exactly if all of them are the
tree's; a decision that is not is refused, or else the tree's own one with another hash takes its place. -/
theorem extract_decisions (hroot : root ∈ f.roots) (hclear : root ∉ f.ambiguous) :
    ∃ full, f.tree root = .ok full ∧ ∀ ds : List Decision,
      let part := f.extract root (ds.map Choice.decision)
      ((∃ t, part = .ok t) ↔ (∀ d ∈ ds, ∃ e ∈ full.decisions, e.path = d.path) ∧
        ∀ d ∈ ds, ∀ q, q ≠ [] → q <+: d.path → ∃ e ∈ ds, e.path = q) ∧
      (∀ t, part = .ok t → ((∀ k, k ∈ t.decisions.map Decision.key ↔ k ∈ ds.map Decision.key) ↔
        ∀ d ∈ ds, full.has d = true)) ∧
      ∀ d ∈ ds, full.has d = false → (∃ fault, part = .error (.tree fault)) ∨
        ∃ t, part = .ok t ∧ ∃ e ∈ t.decisions, e ∈ full.decisions ∧ e.path = d.path ∧
          e.calleeHash ≠ d.calleeHash := by
  obtain ⟨full, hfull⟩ := exists_tree hroot hclear
  have hpaths (ds : List Decision) : f.extract root (ds.map Choice.decision) =
      (full.restrict (ds.map Decision.path)).mapError .tree := by
    rw [extract_of_tree hfull, List.map_map]
    rfl
  refine ⟨full, hfull, fun ds => ?_⟩
  intro part
  simp only [part, hpaths, mapError_eq_ok]
  refine ⟨?_, fun t ht => Tree.keys_restrict_iff ht, fun d hd hforeign => ?_⟩
  · rw [Tree.exists_restrict_iff, List.forall_mem_map, List.forall_mem_map]
    simp only [List.mem_map]
  · cases hrestrict : full.restrict (ds.map Decision.path) with
    | error fault => exact .inl ⟨fault, rfl⟩
    | ok t =>
      obtain ⟨e, hpart, he⟩ := Tree.exists_substitute hrestrict hd hforeign
      exact .inr ⟨t, rfl, e, hpart, he⟩

/-- A decision at the path of a tree's decision, but with another hash, is not refused. -/
theorem extract_decisions_otherHash :
    let f : Forest := ⟨[branchedTree], [], []⟩
    let d : Decision := ⟨[], ⟨4, 200⟩, 99, none, "", []⟩
    branchedTree.root ∈ f.roots ∧ branchedTree.root ∉ f.ambiguous ∧ branchedTree.has d = false ∧
      ∃ t, f.extract branchedTree.root [.decision d] = .ok t ∧
        ∃ e ∈ t.decisions, e ∈ branchedTree.decisions ∧ e.path = d.path ∧ e.calleeHash ≠ 99 := by
  intro f d
  have hroot : branchedTree.root ∈ f.roots := by decide
  have hclear : branchedTree.root ∉ f.ambiguous := by decide
  have hforeign : branchedTree.has d = false := by decide
  obtain ⟨full, hfull, hextract⟩ := extract_decisions hroot hclear
  obtain rfl : branchedTree = full := Except.ok.inj hfull
  obtain ⟨hiff, -, hother⟩ := hextract [d]
  have hclosed : ∀ q ∈ d.path.inits, q ≠ [] → ∃ e ∈ [d], e.path = q := by decide
  have htaken : ∃ t, f.extract branchedTree.root [.decision d] = .ok t := by
    refine hiff.2 ⟨by decide, fun e he q hne hfront => ?_⟩
    obtain rfl := List.mem_singleton.1 he
    exact hclosed q ((List.mem_inits q _).2 hfront) hne
  refine ⟨hroot, hclear, hforeign, (hother d (.head _) hforeign).resolve_left ?_⟩
  rintro ⟨fault, hfault⟩
  obtain ⟨t, ht⟩ := htaken
  cases ht.symm.trans hfault

/-- Given a decision with another hash, the part that is extracted has none of the given decisions, and the
decision that is no member of the tree is not refused. -/
theorem exists_substituted : ∃ (f : Forest) (root : MethodId) (full : Tree) (d : Decision) (t : Tree),
    root ∈ f.roots ∧ root ∉ f.ambiguous ∧ f.tree root = .ok full ∧ full.has d = false ∧
      f.extract root [.decision d] = .ok t ∧ t.has d = false ∧ t.size = 1 := by
  let d : Decision := ⟨[], ⟨4, 200⟩, 99, none, "", []⟩
  have hpart : branchedTree.restrict [d.path] = .ok (branchedTree.upTo 1) :=
    Tree.restrict_eq_ok_iff.2 ⟨by decide, rfl, rfl⟩
  have hfull : (⟨[branchedTree], [], []⟩ : Forest).tree branchedTree.root = .ok branchedTree := rfl
  refine ⟨⟨[branchedTree], [], []⟩, branchedTree.root, branchedTree, d, branchedTree.upTo 1, by decide, by decide,
    hfull, by decide, ?_, by decide, rfl⟩
  rw [extract_of_tree hfull]
  exact mapError_eq_ok.2 hpart

end Forest

end InlineImpact
