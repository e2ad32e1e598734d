import InlineImpact.Forest.Load
import InlineImpact.Proofs.Replay
import InlineImpact.Proofs.Tree.Formation
import Mathlib.Data.List.Nodup

/-!
Which trees a forest offers. A root has one tree at most, so a visit of all roots visits none twice.
-/
namespace InlineImpact

theorem MethodReport.root_of_tree? {m : MethodReport} {t : Tree} (h : m.tree? = some t) :
    t.root = m.root := by
  rw [tree?] at h
  split at h
  · cases ht : Tree.ofDecisions m.root m.decisions with
    | error f =>
      rw [ht] at h
      cases h
    | ok t' =>
      rw [ht] at h
      rw [← Option.some.inj h]
      exact Tree.root_of_ofDecisions ht
  · cases h

namespace Forest

/-- What is accepted of one report. -/
theorem root_of_accepted {ms : List MethodReport} {m : MethodReport} {p : Tree × MethodRecord}
    (h : (if ms.countP (·.root = m.root) = 1 then m.tree?.map (·, m.record) else none) = some p) :
    m.root = p.1.root ∧ ms.countP (·.root = p.1.root) = 1 := by
  split at h
  · rename_i hone
    obtain ⟨t, ht, rfl⟩ := Option.map_eq_some_iff.1 h
    have hroot := MethodReport.root_of_tree? ht
    exact ⟨hroot.symm, by rw [hroot]; exact hone⟩
  · cases h

/-- Only roots that are reported once are accepted. -/
theorem nodup_roots_accepted (ms : List MethodReport) : ((accepted ms).map (·.1.root)).Nodup := by
  refine List.nodup_iff_count_le_one.2 fun root => ?_
  by_cases hone : ms.countP (·.root = root) = 1
  · rw [← hone, List.count, List.countP_map, accepted, List.countP_filterMap]
    refine List.countP_mono_left fun m _ hm => ?_
    rcases hp : (if ms.countP (·.root = m.root) = 1 then m.tree?.map (·, m.record) else none) with _ | p
    · rw [hp] at hm
      cases hm
    · rw [hp] at hm
      have hroot : p.1.root = root := by simpa using hm
      simp [(root_of_accepted hp).1, hroot]
  · rw [List.count_eq_zero.2]
    · exact Nat.zero_le 1
    intro hmem
    obtain ⟨p, hp, rfl⟩ := List.mem_map.1 hmem
    obtain ⟨m, -, hm⟩ := List.mem_filterMap.1 hp
    exact hone (root_of_accepted hm).2

theorem nodup_roots_ofReports (ms : List MethodReport) : (ofReports ms).roots.Nodup := by
  have hperm : (ofReports ms).roots.Perm ((accepted ms).map (·.1.root)) := by
    simp only [roots, ofReports, List.map_map]
    exact (List.mergeSort_perm ..).map _
  exact hperm.nodup_iff.2 (nodup_roots_accepted ms)

theorem nodup_eraseDups {α : Type} [DecidableEq α] (l : List α) : l.eraseDups.Nodup := by
  induction hn : l.length using Nat.strongRecOn generalizing l with
  | ind n ih =>
    cases l with
    | nil => exact List.nodup_nil
    | cons a rest =>
      rw [List.eraseDups_cons, List.nodup_cons, List.mem_eraseDups]
      refine ⟨by simp, ih _ ?_ _ rfl⟩
      have := List.length_filter_le (fun b => !b == a) rest
      simp only [List.length_cons] at hn
      omega

theorem mem_ambiguous_ofReports {ms : List MethodReport} {root : MethodId} : root ∈ (ofReports ms).ambiguous ↔
    root ∈ ms.map (·.root) ∧ root ∉ (ofReports ms).roots := by
  simp [ofReports, roots, MethodId.sort]

theorem nodup_ambiguous_ofReports (ms : List MethodReport) : (ofReports ms).ambiguous.Nodup :=
  (List.mergeSort_perm ..).nodup_iff.2 (nodup_eraseDups _)

/-- A log is read by its first report, a document whose methods are read. -/
theorem read_eq_ok_iff {log : List Char} {f : Forest} : read log = .ok f ↔
    ∃ s document rs, excerpt? log = some s ∧ Markup.readDocument? s = some document ∧
      readReports document.inner = .ok rs ∧ ofReports rs = f := by
  rw [read]
  cases excerpt? log with
  | none => simp
  | some s =>
    dsimp only
    cases hdocument : Markup.readDocument? s with
    | none => simp [hdocument]
    | some document =>
      cases hrs : readReports document.inner with
      | error fault => simp [hdocument, hrs, bind, Except.bind]
      | ok rs => simp [hdocument, hrs, bind, Except.bind, pure, Except.pure]

/-- What was loaded was made of the reports in a log. -/
theorem exists_reports_of_load {ws : Workspace} {path : String} {f : Forest} (h : load ws path = .ok f) :
    ∃ ms, ofReports ms = f := by
  unfold load at h
  split at h
  · split at h <;> cases h
  · obtain ⟨s, document, ms, -, -, -, rfl⟩ := read_eq_ok_iff.1 (mapError_eq_ok.1 h)
    exact ⟨ms, rfl⟩

theorem nodup_roots_of_load {ws : Workspace} {path : String} {f : Forest} (h : load ws path = .ok f) :
    f.roots.Nodup := by
  obtain ⟨ms, rfl⟩ := exists_reports_of_load h
  exact nodup_roots_ofReports ms

/-- No root is named as ambiguous twice. -/
theorem nodup_ambiguous_of_load {ws : Workspace} {path : String} {f : Forest}
    (h : load ws path = .ok f) : f.ambiguous.Nodup := by
  obtain ⟨ms, rfl⟩ := exists_reports_of_load h
  exact nodup_ambiguous_ofReports ms

/-- No root with a tree is ambiguous. -/
theorem not_mem_ambiguous_of_load {ws : Workspace} {path : String} {f : Forest}
    (h : load ws path = .ok f) {root : MethodId} (hroot : root ∈ f.roots) : root ∉ f.ambiguous := by
  obtain ⟨ms, rfl⟩ := exists_reports_of_load h
  exact fun hambiguous => (mem_ambiguous_ofReports.1 hambiguous).2 hroot

theorem exists_tree {f : Forest} {root : MethodId} (hroot : root ∈ f.roots) (hclear : root ∉ f.ambiguous) :
    ∃ full, f.tree root = .ok full := by
  have hcontains : f.ambiguous.contains root = false := by simpa using hclear
  obtain ⟨t, ht, rfl⟩ := List.mem_map.1 hroot
  rw [tree, hcontains, if_neg Bool.false_ne_true]
  cases hfind : f.trees.find? (·.root = t.root) with
  | none => exact absurd (decide_eq_true rfl) (List.find?_eq_none.1 hfind t ht)
  | some full => exact ⟨full, rfl⟩

theorem exists_tree_of_load {ws : Workspace} {path : String} {f : Forest} (h : load ws path = .ok f)
    {root : MethodId} (hroot : root ∈ f.roots) : ∃ full, f.tree root = .ok full :=
  exists_tree hroot (not_mem_ambiguous_of_load h hroot)

theorem nodup_rootsByCalls {f : Forest} (h : f.roots.Nodup) (counts : MethodId → Option Int) :
    (f.rootsByCalls counts).Nodup :=
  (List.mergeSort_perm ..).nodup_iff.2 h

theorem mem_trees_of_tree {f : Forest} {root : MethodId} {t : Tree} (h : f.tree root = .ok t) :
    t ∈ f.trees ∧ t.root = root := by
  rw [tree] at h
  split at h
  · cases h
  · split at h
    · rename_i ht
      rw [← Except.ok.inj h]
      exact ⟨List.mem_of_find?_eq_some ht, by simpa using List.find?_some ht⟩
    · cases h

theorem root_of_tree {f : Forest} {root : MethodId} {t : Tree} (h : f.tree root = .ok t) :
    t.root = root :=
  (mem_trees_of_tree h).2

end Forest

end InlineImpact
