import InlineImpact.Exploration.Root

/-!
Exploring benchmarks one after the other. The roots of a benchmark are visited by descending calls,
ambiguous ones never. A benchmark whose full forest cannot be had is skipped; an abort ends everything
that has not begun.
-/
namespace InlineImpact.Exploration.Explorer

variable {W : Type} (e : Explorer W)

/-- The calls that a run counted, without zeros. -/
def countedCalls (m : Measurement) (root : MethodId) : Option Int :=
  let n := m.calls (some root)
  if n = 0 then none else some n

def excluded (root : MethodId) : RootReport :=
  { root, state := .excluded, reason := "ambiguous root identity" }

def queued (root : MethodId) : RootReport := { root, state := .queued }

/-- Visits roots until an abort; those that are not visited stay queued. -/
def exploreRoots (b : Benchmark) (f : Forest) : List MethodId → Exploring W (List RootReport)
  | [] => return []
  | root :: rest => do
    if ← e.poll then
      return { root, state := .aborted } :: rest.map queued
    let report ← e.exploreRoot b f root
    if report.isAborted then return report :: rest.map queued
    return report :: (← exploreRoots b f rest)

/-- Explores a forest; `counts` are the calls that a run counted. -/
def exploreForest (b : Benchmark) (f : Forest) (counts : MethodId → Option Int) :
    Exploring W BenchmarkReport := do
  say ("".intercalate (f.ambiguous.map fun r => "  Excluding ambiguous root " ++ r.text ++ "\n"))
  let roots ← e.exploreRoots b f (f.rootsByCalls counts)
  return { benchmark := b.name, roots := f.ambiguous.map excluded ++ roots }

/-- Explores a benchmark by the forest of its full model. -/
def exploreBenchmark (b : Benchmark) : Exploring W BenchmarkReport := do
  let (f, m) ← e.fullForest b
  e.exploreForest b f (countedCalls m)

/-- How an exploration goes on after a benchmark failed. -/
inductive Verdict where
  | skip
  | stop

/-- A benchmark is skipped for want of a run or a forest; a request to abort ends the exploration. -/
def verdict? : Failure → Option Verdict
  | .run .. | .forest _ => some .skip
  | .aborted _ => some .stop
  | _ => none

/-- Explores benchmarks; `done` are the reports so far. The flag tells of an abort. -/
def exploreAll (done : Keyed String BenchmarkReport) :
    List Benchmark → Exploring W (Keyed String BenchmarkReport × Bool)
  | [] => return (done, false)
  | b :: rest => do
    if ← e.poll then return (done, true)
    match ← caught (e.exploreBenchmark b) with
    | .ok report =>
      let done := done.put b.name report
      if report.roots.any RootReport.isAborted then return (done, true) else exploreAll done rest
    | .error failure =>
      let failed : BenchmarkReport := { benchmark := b.name, error := some failure.message }
      match verdict? failure with
      | some .skip =>
        say ("  Skipping " ++ b.name ++ ": " ++ failure.message ++ "\n")
        exploreAll (done.put b.name failed) rest
      | some .stop =>
        say ("  Aborted " ++ b.name ++ ": " ++ failure.message ++ "\n")
        return (done.put b.name failed, true)
      | none => throw failure

def rowsWritten : Exploring W Nat := do return (← get).dataset.elim 0 (·.rowsWritten)

/-- Explores benchmarks after counters were found to be there. -/
def explore (benchmarks : List Benchmark) : Exploring W Report := do
  demand (e.host.probe e.settings)
  let before ← rowsWritten
  let (reports, aborted) ← e.exploreAll [] benchmarks
  return ⟨reports.map Prod.snd, (← rowsWritten) - before, aborted⟩

end InlineImpact.Exploration.Explorer
