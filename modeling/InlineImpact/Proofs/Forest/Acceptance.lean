import InlineImpact.Proofs.Forest
import InlineImpact.Proofs.MethodId

/-!
What becomes of the methods of a report. A method has a tree if no other one has its identity and no two
of its decisions contend for a path; all other identities are ambiguous. In which order the methods were
reported, and their decisions, leaves no trace.
-/
namespace InlineImpact

namespace MethodReport

variable {m : MethodReport} {t : Tree}

/-- The tree of a method has the reported decisions. -/
theorem tree?_eq_some_iff : m.tree? = some t ↔
    (m.decisions.map Decision.path).Nodup ∧ t.root = m.root ∧ t.decisions.Perm m.decisions := by
  rw [tree?]
  by_cases hpaths : (m.decisions.map Decision.path).Nodup
  · have hdistinct : Decision.distinct m.decisions = m.decisions :=
      Decision.distinct_of_nodup (Decision.nodup_keys_of_paths hpaths)
    have hmade : Tree.ofDecisions m.root m.decisions = .ok t ↔
        t.root = m.root ∧ t.decisions.Perm (Decision.distinct m.decisions) := Tree.ofDecisions_eq_ok_iff
    rw [hdistinct] at hmade
    rw [if_pos hpaths, and_iff_right hpaths, ← hmade]
    cases Tree.ofDecisions m.root m.decisions <;> simp [Except.toOption]
  · rw [if_neg hpaths]
    simp [hpaths]

theorem exists_tree?_iff (h : ∀ d ∈ m.decisions, d.Supported m.decisions) :
    (∃ t, m.tree? = some t) ↔ (m.decisions.map Decision.path).Nodup := by
  constructor
  · rintro ⟨t, ht⟩
    exact (tree?_eq_some_iff.1 ht).1
  · intro hpaths
    have hdistinct : Decision.distinct m.decisions = m.decisions :=
      Decision.distinct_of_nodup (Decision.nodup_keys_of_paths hpaths)
    obtain ⟨t, ht⟩ := Tree.exists_ofDecisions m.root (hdistinct.symm ▸ hpaths) h
    obtain ⟨hroot, hperm⟩ := Tree.ofDecisions_eq_ok_iff.1 ht
    exact ⟨t, tree?_eq_some_iff.2 ⟨hpaths, hroot, hdistinct ▸ hperm⟩⟩

/-- The order of the decisions leaves no trace in the tree. -/
theorem tree?_congr {m' : MethodReport} (hroot : m.root = m'.root) (h : m.decisions.Perm m'.decisions) :
    m.tree? = m'.tree? := by
  refine Option.ext fun t => ?_
  have hperm : t.decisions.Perm m.decisions ↔ t.decisions.Perm m'.decisions :=
    ⟨fun ht => ht.trans h, fun ht => ht.trans h.symm⟩
  rw [tree?_eq_some_iff, tree?_eq_some_iff, hroot, hperm, (h.map Decision.path).nodup_iff]

/-- All that a forest keeps of a report. -/
def summary (m : MethodReport) : MethodId × MethodRecord × Option Tree := (m.root, m.record, m.tree?)

end MethodReport

/-- An order that tells the members apart leaves one way to sort them. -/
theorem mergeSort_congr {α : Type} {le : α → α → Bool} {l l' : List α}
    (htrans : ∀ a b c, le a b = true → le b c = true → le a c = true) (htotal : ∀ a b, le a b || le b a)
    (h : l.Perm l') (hantisymm : ∀ a ∈ l, ∀ b ∈ l, le a b = true → le b a = true → a = b) :
    l.mergeSort le = l'.mergeSort le := by
  have hperm := ((List.mergeSort_perm l le).trans h).trans (List.mergeSort_perm l' le).symm
  refine hperm.eq_of_pairwise (fun a b ha hb => ?_) (List.pairwise_mergeSort htrans htotal l)
    (List.pairwise_mergeSort htrans htotal l')
  exact hantisymm a (List.mem_mergeSort.1 ha) b (h.mem_iff.2 (List.mem_mergeSort.1 hb))

theorem MethodId.sort_congr {ms ms' : List MethodId} (h : ms.Perm ms') : sort ms = sort ms' := by
  have hdistinct : ms.eraseDups.Perm ms'.eraseDups := by
    refine (List.perm_ext_iff_of_nodup (Forest.nodup_eraseDups _) (Forest.nodup_eraseDups _)).2 fun m => ?_
    rw [List.mem_eraseDups, List.mem_eraseDups, h.mem_iff]
  exact mergeSort_congr le_trans le_total hdistinct fun a _ b _ => le_antisymm

namespace Forest

variable {ms : List MethodReport}

theorem mem_accepted {t : Tree} {r : MethodRecord} : (t, r) ∈ accepted ms ↔
    ∃ m ∈ ms, (ms.map (·.root)).count m.root = 1 ∧ m.tree? = some t ∧ m.record = r := by
  have hcount (root : MethodId) : ms.countP (·.root = root) = (ms.map (·.root)).count root := by
    rw [List.count, List.countP_map]
    rfl
  rw [accepted, List.mem_filterMap]
  refine exists_congr fun m => and_congr_right fun _ => ?_
  rw [hcount]
  split
  · rename_i hone
    simp [hone]
  · rename_i hmany
    simp [hmany]

theorem trees_perm (ms : List MethodReport) : (ofReports ms).trees.Perm ((accepted ms).map Prod.fst) :=
  (List.mergeSort_perm ..).map _

theorem mem_trees_ofReports {t : Tree} : t ∈ (ofReports ms).trees ↔
    ∃ m ∈ ms, (ms.map (·.root)).count m.root = 1 ∧ m.tree? = some t := by
  rw [(trees_perm ms).mem_iff]
  simp only [List.mem_map, Prod.exists, exists_and_right, exists_eq_right, mem_accepted]
  constructor
  · rintro ⟨r, m, hm, hone, ht, -⟩
    exact ⟨m, hm, hone, ht⟩
  · rintro ⟨m, hm, hone, ht⟩
    exact ⟨m.record, m, hm, hone, ht, rfl⟩

/-- Every tree has a record beside it, and no other root has one. -/
theorem keys_records (ms : List MethodReport) : (ofReports ms).records.keys = (ofReports ms).roots := by
  simp [ofReports, roots, Keyed.keys, Function.comp_def]

theorem mem_roots_ofReports {root : MethodId} : root ∈ (ofReports ms).roots ↔
    ∃ m ∈ ms, m.root = root ∧ (ms.map (·.root)).count root = 1 ∧ ∃ t, m.tree? = some t := by
  rw [roots, List.mem_map]
  constructor
  · rintro ⟨t, ht, rfl⟩
    obtain ⟨m, hm, hone, ht⟩ := mem_trees_ofReports.1 ht
    have hroot := (MethodReport.tree?_eq_some_iff.1 ht).2.1
    exact ⟨m, hm, hroot.symm, hroot ▸ hone, t, ht⟩
  · rintro ⟨m, hm, rfl, hone, t, ht⟩
    exact ⟨t, mem_trees_ofReports.2 ⟨m, hm, hone, ht⟩, (MethodReport.tree?_eq_some_iff.1 ht).2.1⟩

/-- Every identity is either that of a tree or ambiguous, and is listed once. -/
theorem roots_append_ambiguous (ms : List MethodReport) :
    ((ofReports ms).roots ++ (ofReports ms).ambiguous).Perm (ms.map (·.root)).eraseDups := by
  refine (List.perm_ext_iff_of_nodup ?_ (nodup_eraseDups _)).2 fun root => ?_
  · refine List.nodup_append'.2 ⟨nodup_roots_ofReports ms,
      nodup_ambiguous_ofReports ms, ?_⟩
    exact fun root hroot hambiguous => (mem_ambiguous_ofReports.1 hambiguous).2 hroot
  · rw [List.mem_append, mem_ambiguous_ofReports, List.mem_eraseDups]
    refine ⟨fun h => h.elim (fun hroot => ?_) And.left, fun hlisted => ?_⟩
    · obtain ⟨m, hm, rfl, -⟩ := mem_roots_ofReports.1 hroot
      exact List.mem_map_of_mem hm
    · by_cases hroot : root ∈ (ofReports ms).roots
      · exact .inl hroot
      · exact .inr ⟨hlisted, hroot⟩

section Order

theorem accepted_eq (ms : List MethodReport) : accepted ms = (ms.map MethodReport.summary).filterMap fun s =>
    if (ms.map MethodReport.summary).countP (·.1 = s.1) = 1 then s.2.2.map (·, s.2.1) else none := by
  rw [accepted, List.filterMap_map]
  simp only [List.countP_map]
  rfl

variable {ms ms' : List MethodReport}

theorem accepted_perm (h : (ms.map MethodReport.summary).Perm (ms'.map MethodReport.summary)) :
    (accepted ms).Perm (accepted ms') := by
  rw [accepted_eq, accepted_eq]
  simp only [h.countP_eq]
  exact h.filterMap _

/-- The roots tell the trees apart, so there is one order to keep them in. -/
theorem sorted_accepted_congr (h : (ms.map MethodReport.summary).Perm (ms'.map MethodReport.summary)) :
    (accepted ms).mergeSort (fun a b => MethodId.le a.1.root b.1.root) =
      (accepted ms').mergeSort fun a b => MethodId.le a.1.root b.1.root := by
  refine mergeSort_congr (fun _ _ _ => MethodId.le_trans _ _ _) (fun _ _ => MethodId.le_total _ _)
    (accepted_perm h) fun a ha b hb hab hba => ?_
  exact List.inj_on_of_nodup_map (nodup_roots_accepted ms) ha hb (MethodId.le_antisymm hab hba)

/-- The order of the reports leaves no trace in the forest. -/
theorem ofReports_congr (h : (ms.map MethodReport.summary).Perm (ms'.map MethodReport.summary)) :
    ofReports ms = ofReports ms' := by
  have hroots : (ms.map (·.root)).Perm (ms'.map (·.root)) := by
    have hfirst := h.map Prod.fst
    rwa [List.map_map, List.map_map] at hfirst
  simp only [ofReports, sorted_accepted_congr h, MethodId.sort_congr (hroots.filter _)]

end Order

end Forest

end InlineImpact
