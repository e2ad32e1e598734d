import InlineImpact.Proofs.Exploration.Ledger
import Mathlib.Algebra.Ring.Nat

/-!
The work on one benchmark as a whole: its full model's run is a survey of the roots there are to visit,
and the rows that follow stand where the survey has them. A benchmark that ends without a report either
has no survey, and then no rows, or ends the exploration with it.
-/
namespace InlineImpact

open Exploration (Event)
open Dataset (Row Position)
open scoped List

namespace Exploration

open Exploring (Yields)
open Journal

variable {W : Type}

/-- What the full model's run of a benchmark told: its forest, and the run's measurement. -/
structure Survey where
  benchmark : Benchmark
  forest : Forest
  run : Measurement

namespace Survey

variable (v : Survey)

/-- The roots to visit, in the order of the visits. -/
def roots : List MethodId := v.forest.rootsByCalls (Explorer.countedCalls v.run)

/-- Where rows for the root belong. -/
def positionsOf (root : MethodId) : List Position :=
  positions v.benchmark.name root (v.forest.decisionsOf root)

/-- Where all rows for the benchmark belong, in the order of the visits. -/
def positions : List Position := v.roots.flatMap v.positionsOf

end Survey

/-- The survey was made by a run among the events, and its forest is the one in the log of that run. -/
def Explorer.Found (e : Explorer W) (J : List Event) (v : Survey) : Prop :=
  ∃ A run B ws, J = A ++ .ran v.benchmark e.fullModel (.ok run) :: .loaded (.ok v.run) ::
    .reported v.forest :: B ∧ Forest.load ws run.logFile = .ok v.forest

namespace RootReport

/-- Each of the roots was visited to its end. -/
def AllSettled (rs : List RootReport) : Prop := ∀ r ∈ rs, r.IsSettled

/-- An abort cut the visit of one root short, and those after it were never begun. -/
def CutShort (rs : List RootReport) : Prop :=
  ∃ before r after, rs = before ++ r :: after ∧ AllSettled before ∧ r.state = .aborted ∧
    ∀ r' ∈ after, r'.state = .queued

theorem IsSettled.not_isAborted {r : RootReport} (h : r.IsSettled) : r.isAborted = false := by
  unfold isAborted
  rcases h with h | h <;> simp [h]

theorem AllSettled.any_isAborted {rs : List RootReport} (h : AllSettled rs) :
    rs.any isAborted = false := by
  rw [List.any_eq_false]
  exact fun r hr => by simp [(h r hr).not_isAborted]

theorem CutShort.any_isAborted {rs : List RootReport} (h : CutShort rs) : rs.any isAborted = true := by
  obtain ⟨before, r, after, rfl, -, hr, -⟩ := h
  simp [isAborted, hr]

/-- What ends before, the cut comes after. -/
theorem CutShort.cons {r : RootReport} {rs : List RootReport} (hr : r.IsSettled) (h : CutShort rs) :
    CutShort (r :: rs) := by
  obtain ⟨before, r', after, rfl, hbefore, hr', hafter⟩ := h
  exact ⟨r :: before, r', after, rfl, List.forall_mem_cons.2 ⟨hr, hbefore⟩, hr', hafter⟩

theorem cutShort_queued {r : RootReport} (rest : List MethodId) (hr : r.state = .aborted) :
    CutShort (r :: rest.map Explorer.queued) :=
  ⟨[], r, _, rfl, by simp [AllSettled], hr, by simp [Explorer.queued]⟩

end RootReport

open RootReport (AllSettled CutShort)

/-- What the visit of some roots comes to: rows in the order of the roots, and a report for each root
that tells the rows of that root. -/
structure Explorer.Toured (e : Explorer W) (b : Benchmark) (f : Forest) (roots : List MethodId)
    (s : Session W) (J : List Event) (rs : List RootReport) (t : Session W) : Prop where
  did : e.Did b (· ∈ roots) (roots.flatMap fun root => positions b.name root (f.decisionsOf root)) s J t
  roots : rs.map (·.root) = roots
  tells : ∀ r ∈ rs, r.Tells (rowsOf J b.name r.root)
  total : (rows J).length = (rs.map fun r => r.pairs + r.missing).sum
  ended : AllSettled rs ∨ CutShort rs

section Roots

variable {e : Explorer W} {b : Benchmark} {f : Forest} {R : MethodId → Prop} {P : List Position}
  {s t u : Session W} {J K : List Event} {root : MethodId}

/-- Rows of others. -/
theorem Explorer.Did.rowsOf_eq_nil (h : e.Did b R P s J t) {name : String}
    (hP : ∀ p ∈ P, p.1 = name → p.2.1 ≠ root) : rowsOf J name root = [] := by
  rw [rowsOf, List.filter_eq_nil_iff]
  intro row hrow
  have := hP _ (h.position_mem hrow)
  simpa [Row.position] using this

theorem Explorer.Did.rowsOf_eq_rows {ds : List Decision}
    (h : e.Did b R (positions b.name root ds) s J t) : rowsOf J b.name root = rows J := by
  rw [rowsOf, List.filter_eq_self]
  intro row hrow
  obtain ⟨d, -, hd⟩ := List.mem_map.1 (h.position_mem hrow)
  obtain ⟨hb, hroot, -⟩ : b.name = row.benchmark ∧ root = row.root ∧ d = row.decision := by
    simpa [Row.position] using hd
  simp [hb, hroot]

/-- The work on the first root, and on those after it, is work on the roots. -/
theorem Explorer.Did.first (h : e.Did b (· = root) P s J t) (rest : List MethodId) :
    e.Did b (· ∈ root :: rest) P s J t :=
  h.weaken fun _ heq => heq ▸ List.mem_cons_self

theorem Explorer.Did.later {rest : List MethodId} (h : e.Did b (· ∈ rest) P s J t) (root : MethodId) :
    e.Did b (· ∈ root :: rest) P s J t :=
  h.weaken fun _ => List.mem_cons_of_mem root

/-- What stands at a root's place has that root. -/
theorem root_of_mem_positions {roots : List MethodId} {p : Position}
    (hp : p ∈ roots.flatMap fun root => positions b.name root (f.decisionsOf root)) : p.2.1 ∈ roots := by
  obtain ⟨root, hroot, hmem⟩ := List.mem_flatMap.1 hp
  obtain ⟨d, -, rfl⟩ := List.mem_map.1 hmem
  exact hroot

namespace Explorer.Toured

variable {rest : List MethodId} {r : RootReport} {rs : List RootReport}

theorem before {roots : List MethodId} (h : e.Did b (· ∈ roots) [] s J t)
    (h' : e.Toured b f roots t K rs u) : e.Toured b f roots s (J ++ K) rs u where
  did := h.before h'.did
  roots := h'.roots
  tells r hr := by
    have hnone : rowsOf J b.name r.root = [] := h.rowsOf_eq_nil (by simp)
    rw [rowsOf_append, hnone]
    exact h'.tells r hr
  total := by
    rw [rows_append, h.rows_eq_nil]
    exact h'.total
  ended := h'.ended

/-- Roots that wait for an abort to pass have no rows. -/
theorem cut (hr : r.state = .aborted) (hroot : r.root = root) (hrest : root ∉ rest)
    (h : e.Did b (· = root) (positions b.name root (f.decisionsOf root)) s J t) (ht : r.Tells (rows J)) :
    e.Toured b f (root :: rest) s J (r :: rest.map queued) t where
  did := (h.mono (List.sublist_append_left _ _)).first rest
  roots := by
    rw [List.map_cons, hroot, List.map_map]
    congr 1
    exact List.map_id' rest
  tells := by
    refine List.forall_mem_cons.2 ⟨by rwa [hroot, h.rowsOf_eq_rows], ?_⟩
    refine List.forall_mem_map.2 fun root' hroot' => ?_
    have hne : root' ≠ root := fun heq => hrest (heq ▸ hroot')
    have hnone : rowsOf J b.name root' = [] := h.rowsOf_eq_nil fun p hp _ heq => by
      obtain ⟨d, -, rfl⟩ := List.mem_map.1 hp
      exact hne heq.symm
    rw [show (queued root').root = root' from rfl, hnone]
    exact ⟨rfl, rfl, fun _ _ => rfl⟩
  total := by
    have hzero : ((rest.map queued).map fun r => r.pairs + r.missing).sum = 0 := by
      induction rest with
      | nil => rfl
      | cons _ rest ih => simpa [queued] using ih fun hmem => hrest (.tail _ hmem)
    rw [List.map_cons, List.sum_cons, hzero, ht.length_eq, Nat.add_zero]
  ended := .inr (RootReport.cutShort_queued rest hr)

/-- A root that is settled, and the roots after it. -/
theorem cons (h : e.Visited b f root s J r t) (hr : r.IsSettled) (hroot : root ∉ rest)
    (h' : e.Toured b f rest t K rs u) : e.Toured b f (root :: rest) s (J ++ K) (r :: rs) u := by
  have hmem : ∀ r' ∈ rs, r'.root ∈ rest := fun r' hr' => h'.roots ▸ List.mem_map_of_mem hr'
  have hown : rowsOf K b.name root = [] := h'.did.rowsOf_eq_nil fun p hp _ heq =>
    hroot (heq ▸ root_of_mem_positions hp)
  have hothers : ∀ r' ∈ rs, rowsOf J b.name r'.root = [] := fun r' hr' => h.did.rowsOf_eq_nil fun p hp _ heq => by
    obtain ⟨d, -, rfl⟩ := List.mem_map.1 hp
    exact hroot ((show root = r'.root from heq) ▸ hmem r' hr')
  constructor
  case did =>
    exact (h.did.first rest).trans (h'.did.later root)
  case roots => rw [List.map_cons, h.root, h'.roots]
  case tells =>
    refine List.forall_mem_cons.2 ⟨?_, fun r' hr' => ?_⟩
    · rw [h.root, rowsOf_append, hown, h.did.rowsOf_eq_rows, List.append_nil]
      exact h.tells
    · rw [rowsOf_append, hothers r' hr']
      exact h'.tells r' hr'
  case total =>
    rw [rows_append, List.length_append, List.map_cons, List.sum_cons, h'.total, h.tells.length_eq]
  case ended => exact h'.ended.imp (fun hall => List.forall_mem_cons.2 ⟨hr, hall⟩) (·.cons hr)

end Explorer.Toured

end Roots

section Benchmarks

variable {e : Explorer W} {b : Benchmark} {s : Session W} {J K : List Event} {v : Survey}

theorem found_append (h : e.Found J v) (K : List Event) : e.Found (J ++ K) v := by
  obtain ⟨A, run, B, ws, rfl, hload⟩ := h
  exact ⟨A, run, B ++ K, ws, by simp, hload⟩

theorem found_of_append (h : e.Found K v) (J : List Event) : e.Found (J ++ K) v := by
  obtain ⟨A, run, B, ws, rfl, hload⟩ := h
  exact ⟨J ++ A, run, B, ws, by simp, hload⟩

/-- No root of a forest that was found is visited twice. -/
theorem Explorer.Found.nodup_roots (h : e.Found J v) : v.roots.Nodup := by
  obtain ⟨_, _, _, ws, -, hload⟩ := h
  exact Forest.nodup_rootsByCalls (Forest.nodup_roots_of_load hload) _

/-- Runs of the full model replay no tree. -/
theorem did_of_fullModel {R : MethodId → Prop} {left : Nat}
    {o : Except Failure (CompletedRun × Measurement)} {t : Session W}
    (hb : Block b e.fullModel left J o) (hK : K = J ∨ ∃ f, K = J ++ [.reported f])
    (ht : t.journal = s.journal ++ K) : e.Did b R [] s K t := by
  have hran {b' c o'} (hmem : .ran b' c o' ∈ K) : b' = b ∧ c = e.fullModel := by
    have hmem : .ran b' c o' ∈ J := by
      rcases hK with rfl | ⟨f, rfl⟩
      · exact hmem
      · simpa using hmem
    simpa using hb.mem_cases hmem
  have hrows : rows K = [] := by
    have hJ : rows J = [] := hb.row_free
    rcases hK with rfl | ⟨f, rfl⟩
    · exact hJ
    · rw [rows_append, hJ]
      rfl
  refine ⟨ht, fun b' c o' hmem => (hran hmem).1, ?_, by simp [hrows]⟩
  rintro A b' c o' B hsplit -
  have hmem : .ran b' c o' ∈ K := by simp [hsplit]
  exact .inl (hran hmem).2

/-- The run of the full model makes the survey. -/
theorem fullForest_did : (e.fullForest b).Yields s
    (fun r t => ∃ J, e.Did b (fun _ => False) [] s J t ∧ e.Found J ⟨b, r.1, r.2⟩)
    (fun _ t => ∃ J, e.Did b (fun _ => False) [] s J t) := by
  have hspec := e.fullForest_spec b s
  rcases ho : (e.fullForest b).on s with ⟨o, t⟩
  rw [ho] at hspec
  cases hspec with
  | refused f hr => exact .of_error ho ⟨[], .refl _⟩
  | failed hb hs => exact .of_error ho ⟨_, did_of_fullModel hb (.inl rfl) hs.journal⟩
  | unreported hb hs => exact .of_error ho ⟨_, did_of_fullModel hb (.inl rfl) hs.journal⟩
  | @captured J run m f ws _ hb hf hs =>
    refine .of_ok ho ⟨_, did_of_fullModel hb (.inr ⟨f, rfl⟩) hs.journal, ?_⟩
    obtain ⟨K, rfl⟩ := hb.exists_counted rfl
    exact ⟨K, run, [], ws, by simp, hf⟩

/-- What a benchmark comes to that is reported with its roots. -/
structure Explorer.Surveyed (e : Explorer W) (v : Survey) (s : Session W) (J : List Event)
    (r : BenchmarkReport) (t : Session W) : Prop where
  found : e.Found J v
  report : ∃ rs, e.Toured v.benchmark v.forest v.roots s J rs t ∧
    r = { benchmark := v.benchmark.name, roots := v.forest.ambiguous.map Explorer.excluded ++ rs }

/-- The rows of a benchmark stand where its survey has them. -/
theorem Explorer.Surveyed.did {r : BenchmarkReport} {t : Session W} (h : e.Surveyed v s J r t) :
    e.Did v.benchmark (· ∈ v.roots) v.positions s J t := by
  obtain ⟨rs, hrs, -⟩ := h.report
  exact hrs.did

end Benchmarks

end Exploration

end InlineImpact
