import InlineImpact.Proofs.Exploration.Containment
import InlineImpact.Proofs.Exploration.Survey
import InlineImpact.Proofs.Exploration.Tally
import InlineImpact.Proofs.Keyed

/-!
A report agrees with what was done. It counts the rows that were handed out, for each root and in all, and
says of each root how its visit ended; an abort cuts one visit short, and nothing after it is begun.
`exploreAll_tallied` has this from one benchmark to the next.
-/
namespace InlineImpact

open Exploration (Event)
open Dataset (Row Position)
open scoped List

namespace Exploration

open Exploring (Yields)
open Journal
open RootReport (AllSettled CutShort)

variable {W : Type}

namespace BenchmarkReport

/-- Every root was left out or visited to its end. -/
def IsFinished (r : BenchmarkReport) : Prop := ∀ root ∈ r.roots, root.state = .excluded ∨ root.IsSettled

/-- One root was cut short; those before it are finished, those after it never begun. -/
def IsCut (r : BenchmarkReport) : Prop :=
  ∃ before root after, r.roots = before ++ root :: after ∧
    (∀ x ∈ before, x.state = .excluded ∨ x.IsSettled) ∧ root.state = .aborted ∧
    ∀ x ∈ after, x.state = .queued

/-- The rows that the roots' reports count. -/
def counted (r : BenchmarkReport) : Nat := (r.roots.map fun root => root.pairs + root.missing).sum

end BenchmarkReport

section Assertions

variable (e : Explorer W)

/-- The report lists the roots of the forest: the ambiguous ones, which are left out, then those that have a
tree. Only trees of the latter were replayed. -/
structure Explorer.ListsRoots (b : Benchmark) (f : Forest) (J : List Event) (r : BenchmarkReport) : Prop where
  roots : ∃ visited, r.roots = f.ambiguous.map Explorer.excluded ++ visited ∧
    (visited.map (·.root)).Perm f.roots ∧ ∀ root ∈ visited, root.state ≠ .excluded
  distinct : (r.roots.map (·.root)).Nodup
  replays : e.Replays b.name (· ∈ f.roots) J

/-- What the report of a benchmark tells of the events: for each root its rows, and the roots of the forest
that the full model's run reported, unless there is an error and no root. -/
structure Explorer.Answers (b : Benchmark) (J : List Event) (r : BenchmarkReport) : Prop where
  name : r.benchmark = b.name
  tells : ∀ root ∈ r.roots, root.Tells (rowsOf J b.name root.root)
  roots : r.error ≠ none ∧ r.roots = [] ∨
    r.error = none ∧ ∃ f, e.Reported J b f ∧ e.ListsRoots b f J r

/-- Nothing among the events is of a benchmark with this name. -/
structure Foreign (name : String) (J : List Event) : Prop where
  rows : ∀ row ∈ rows J, row.benchmark ≠ name
  runs : ∀ b c o, .ran b c o ∈ J → b.name ≠ name

/-- The events are all of the benchmark, and the report tells of them and counts their rows. -/
structure Explorer.Closes (b : Benchmark) (J : List Event) (r : BenchmarkReport) : Prop where
  answers : e.Answers b J r
  foreign : ∀ name ≠ b.name, Foreign name J
  total : (rows J).length = r.counted

/-- The reports tell of the events, which are all of the benchmarks, and count their rows. -/
structure Explorer.Tallied (bs : List Benchmark) (J : List Event) (new : List BenchmarkReport)
    (aborted : Bool) : Prop where
  order : new.map (·.benchmark) <+: bs.map (·.name)
  answers : ∀ r ∈ new, ∃ b ∈ bs, e.Answers b J r
  foreign : ∀ name ∉ bs.map (·.name), Foreign name J
  total : (rows J).length = (new.map (·.counted)).sum
  finished : aborted = false → new.map (·.benchmark) = bs.map (·.name) ∧ ∀ r ∈ new, r.IsFinished
  cut : aborted = true → (∀ r ∈ new, r.IsFinished) ∨
    ∃ before last, new = before ++ [last] ∧ (∀ r ∈ before, r.IsFinished) ∧ last.IsCut

end Assertions

section Frames

variable {e : Explorer W} {b : Benchmark} {bs rest : List Benchmark} {J K : List Event}
  {r : BenchmarkReport} {new : List BenchmarkReport} {s t : Session W} {R : MethodId → Prop}
  {P : List Position} {name : String} {aborted : Bool}

theorem Foreign.rowsOf_eq_nil (h : Foreign name J) (root : MethodId) : rowsOf J name root = [] := by
  rw [rowsOf, List.filter_eq_nil_iff]
  intro row hrow
  have hne : row.benchmark ≠ name := h.rows row hrow
  simp [hne]

theorem Foreign.append (h : Foreign name J) (h' : Foreign name K) : Foreign name (J ++ K) where
  rows _ hrow := by
    rw [rows_append, List.mem_append] at hrow
    exact hrow.elim (h.rows _) (h'.rows _)
  runs b c o hmem := (List.mem_append.1 hmem).elim (h.runs b c o) (h'.runs b c o)

/-- Work on a benchmark is foreign to all others. -/
theorem Explorer.Did.foreign (h : e.Did b R P s J t) (hP : ∀ p ∈ P, p.1 = b.name) (hne : name ≠ b.name) :
    Foreign name J where
  rows _ hrow hname := hne (hname.symm.trans (hP _ (h.position_mem hrow)))
  runs b' c o hmem hname := hne (hname.symm.trans (congrArg Benchmark.name (h.own b' c o hmem)))

/-- Events without rows and runs are foreign to every benchmark. -/
theorem foreign_of_silent (hrows : rows J = []) (hruns : ∀ b c o, .ran b c o ∉ J) : Foreign name J where
  rows := by simp [hrows]
  runs b c o hmem := (hruns b c o hmem).elim

namespace Explorer.Answers

theorem append (h : e.Answers b J r) (hK : Foreign b.name K) : e.Answers b (J ++ K) r where
  name := h.name
  tells root hroot := by
    rw [rowsOf_append, hK.rowsOf_eq_nil, List.append_nil]
    exact h.tells root hroot
  roots := h.roots.imp_right fun ⟨herror, f, hf, hr⟩ =>
    ⟨herror, f, reported_append hf K, hr.roots, hr.distinct, replays_append hr.replays (replays_of_silent hK.runs)⟩

theorem of_append (h : e.Answers b K r) (hJ : Foreign b.name J) : e.Answers b (J ++ K) r where
  name := h.name
  tells root hroot := by
    rw [rowsOf_append, hJ.rowsOf_eq_nil, List.nil_append]
    exact h.tells root hroot
  roots := by
    refine h.roots.imp_right fun ⟨herror, f, hf, hr⟩ => ⟨herror, f, ?_, hr.roots, hr.distinct, ?_⟩
    · obtain ⟨A, run, m, B, rfl⟩ := hf
      exact ⟨J ++ A, run, m, B, by simp⟩
    · exact replays_append (replays_of_silent hJ.runs) hr.replays

end Explorer.Answers

namespace Explorer.Closes

end Explorer.Closes

namespace Explorer.Tallied

/-- No benchmark is begun. -/
theorem none (bs : List Benchmark) (hrows : rows J = []) (hruns : ∀ b c o, .ran b c o ∉ J) :
    e.Tallied bs J [] true where
  order := List.nil_prefix
  answers := by simp
  foreign _ _ := foreign_of_silent hrows hruns
  total := by simp [hrows]
  finished := nofun
  cut _ := .inl (by simp)

/-- No benchmark is begun after this one. -/
theorem last (h : e.Closes b J r) (hr : r.IsFinished ∨ r.IsCut) : e.Tallied (b :: rest) J [r] true where
  order := by
    rw [List.map_singleton, h.answers.name]
    exact ⟨rest.map (·.name), rfl⟩
  answers := by simpa using .inl h.answers
  foreign name hname := h.foreign name fun heq => hname (heq ▸ List.mem_cons_self)
  total := by simpa using h.total
  finished := nofun
  cut _ := hr.imp (by simp) fun hr => ⟨[], r, rfl, by simp, hr⟩

/-- A benchmark, and those after it. -/
theorem cons (h : e.Closes b J r) (hr : r.IsFinished) (hname : b.name ∉ rest.map (·.name))
    (h' : e.Tallied rest K new aborted) : e.Tallied (b :: rest) (J ++ K) (r :: new) aborted where
  order := by
    rw [List.map_cons, List.map_cons, h.answers.name]
    exact (List.prefix_cons_inj _).2 h'.order
  answers := by
    refine List.forall_mem_cons.2 ⟨⟨b, .head _, h.answers.append (h'.foreign _ hname)⟩, fun r' hr' => ?_⟩
    obtain ⟨b', hb', ha⟩ := h'.answers r' hr'
    have hne : b'.name ≠ b.name := fun heq => hname (heq ▸ List.mem_map_of_mem hb')
    exact ⟨b', .tail _ hb', ha.of_append (h.foreign _ hne)⟩
  foreign name hmem := by
    obtain ⟨hne, hrest⟩ := List.ne_and_not_mem_of_not_mem_cons (List.map_cons ▸ hmem)
    exact (h.foreign name hne).append (h'.foreign name hrest)
  total := by
    rw [rows_append, List.length_append, List.map_cons, List.sum_cons, h.total, h'.total]
  finished haborted := by
    obtain ⟨hall, hfinished⟩ := h'.finished haborted
    exact ⟨by rw [List.map_cons, List.map_cons, h.answers.name, hall], List.forall_mem_cons.2 ⟨hr, hfinished⟩⟩
  cut haborted := by
    refine (h'.cut haborted).imp (fun hall => List.forall_mem_cons.2 ⟨hr, hall⟩) ?_
    rintro ⟨before, last, rfl, hbefore, hlast⟩
    exact ⟨r :: before, last, rfl, List.forall_mem_cons.2 ⟨hr, hbefore⟩, hlast⟩

end Explorer.Tallied

end Frames

section Benchmarks

variable {e : Explorer W} {b : Benchmark} {s t : Session W} {J : List Event} {v : Survey}
  {r : BenchmarkReport}

theorem Explorer.Surveyed.closes (h : e.Surveyed v s J r t) : e.Closes v.benchmark J r := by
  obtain ⟨rs, hrs, rfl⟩ := h.report
  have hforest := h.found
  obtain ⟨A, run, B, ws, hJ, hload⟩ := h.found
  have hperm : v.roots.Perm v.forest.roots := List.mergeSort_perm _ _
  have hclear : ∀ root ∈ v.roots, root ∉ v.forest.ambiguous := fun root hroot =>
    Forest.not_mem_ambiguous_of_load hload (hperm.subset hroot)
  have hnames : ∀ p ∈ v.roots.flatMap fun root => positions v.benchmark.name root
      (v.forest.decisionsOf root), p.1 = v.benchmark.name := by
    intro p hp
    obtain ⟨root, -, hp⟩ := List.mem_flatMap.1 hp
    obtain ⟨d, -, rfl⟩ := List.mem_map.1 hp
    rfl
  have hzero : ((v.forest.ambiguous.map Explorer.excluded).map fun root => root.pairs + root.missing).sum = 0 := by
    induction v.forest.ambiguous with
    | nil => rfl
    | cons root rest ih => simpa [Explorer.excluded] using ih
  refine ⟨⟨rfl, ?_, .inr ⟨rfl, v.forest, ⟨A, run, v.run, B, hJ⟩, ?_, ?_, ?_⟩⟩, ?_, ?_⟩
  · rw [List.forall_mem_append]
    refine ⟨List.forall_mem_map.2 fun root hroot => ?_, hrs.tells⟩
    have hnone : rowsOf J v.benchmark.name root = [] := hrs.did.rowsOf_eq_nil fun p hp _ heq =>
      hclear p.2.1 (root_of_mem_positions hp) (heq ▸ hroot)
    rw [show (Explorer.excluded root).root = root from rfl, hnone]
    exact ⟨rfl, rfl, fun _ _ => rfl⟩
  · refine ⟨rs, rfl, by rw [hrs.roots]; exact hperm, fun root hroot hstate => ?_⟩
    rcases hrs.ended with hall | ⟨before, cut, after, rfl, hbefore, hcut, hafter⟩
    · rcases hall root hroot with h | h <;> rw [hstate] at h <;> cases h
    · rcases List.mem_append.1 hroot with hmem | hmem
      · rcases hbefore root hmem with h | h <;> rw [hstate] at h <;> cases h
      · rcases List.mem_cons.1 hmem with rfl | hmem
        · rw [hstate] at hcut
          cases hcut
        · have := hafter root hmem
          rw [hstate] at this
          cases this
  · rw [List.map_append, hrs.roots, List.map_map]
    refine List.Nodup.append ?_ hforest.nodup_roots fun root hmem hroot => hclear root hroot ?_
    · rw [show (fun r : RootReport => r.root) ∘ Explorer.excluded = id from rfl, List.map_id]
      exact Forest.nodup_ambiguous_of_load hload
    · simpa [Explorer.excluded] using hmem
  · exact replays_mono hrs.did.replays fun root hroot => hperm.subset hroot
  · exact fun name hne => hrs.did.foreign hnames hne
  · rw [BenchmarkReport.counted, List.map_append, List.sum_append, hzero, Nat.zero_add, hrs.total]

theorem any_isAborted_excluded (roots : List MethodId) :
    (roots.map Explorer.excluded).any RootReport.isAborted = false := by
  simp [Explorer.excluded, RootReport.isAborted]

/-- The visits of a benchmark's roots all came to their end, or one was cut short. -/
theorem Explorer.Surveyed.ended (h : e.Surveyed v s J r t) :
    (r.roots.any RootReport.isAborted = false ∧ r.IsFinished) ∨
      (r.roots.any RootReport.isAborted = true ∧ r.IsCut) := by
  obtain ⟨rs, hrs, rfl⟩ := h.report
  have hleft : ∀ x ∈ v.forest.ambiguous.map Explorer.excluded, x.state = .excluded ∨ x.IsSettled :=
    List.forall_mem_map.2 fun _ _ => .inl rfl
  simp only [List.any_append, any_isAborted_excluded, Bool.false_or]
  rcases hrs.ended with hall | hcut
  · exact .inl ⟨hall.any_isAborted, List.forall_mem_append.2 ⟨hleft, fun x hx => .inr (hall x hx)⟩⟩
  · refine .inr ⟨hcut.any_isAborted, ?_⟩
    obtain ⟨before, root, after, rfl, hbefore, hroot, hafter⟩ := hcut
    refine ⟨_, root, after, (List.append_assoc _ before _).symm, ?_, hroot, hafter⟩
    exact List.forall_mem_append.2 ⟨hleft, fun x hx => .inr (hbefore x hx)⟩

section Amounts

variable {bs : List Benchmark} {done : Keyed String BenchmarkReport} {u w : Session W} {K : List Event}
  {answer : Bool}

end Amounts

end Benchmarks

section Reports

variable {e : Explorer W} {bs : List Benchmark} {J : List Event}

def plain : Benchmark := { name := "plain", path := "/plain" }

def plainSession : Session Unit := .fresh () bareFiles (some { path := "/data.csv" })

end Reports

end Exploration

end InlineImpact
