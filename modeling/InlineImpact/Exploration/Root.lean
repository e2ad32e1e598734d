import InlineImpact.Exploration.Measure
import InlineImpact.Exploration.Report

/-!
Exploring one root. Its tree grows from the empty one by one decision at a time, in order, and the
run of each tree is compared with that of the tree before. A decision whose context has a row already
is not compared again. First the empty and the full tree are compared, and a root on which all
inlining together has no effect beyond noise is left alone.
-/
namespace InlineImpact.Exploration.Explorer

variable {W : Type} (e : Explorer W)

/-- The empty tree's run and the full tree's run. -/
def measureEnds (b : Benchmark) (full : Tree) : Exploring W (Measurement × Measurement) := do
  let empty ← e.measureTree b (.empty full.root)
  if ← e.poll then throw (.aborted .beforeFullTree)
  return (empty, ← e.measureTree b full)

/-- The parent's run, unless it is known, and the child's run. -/
def measurePair (b : Benchmark) (parent : Tree) (known : Option Measurement) (child : Tree) :
    Exploring W (Measurement × Measurement) := do
  let parentRun ← match known with
    | some m => pure m
    | none => e.measureTree b parent
  return (parentRun, ← e.measureTree b child)

/-- Hands out a row without data for every decision that has none yet; tells how many. -/
def emitMissing (b : Benchmark) (root : MethodId) : List Decision → Exploring W Nat
  | [] => return 0
  | d :: rest => do
    if ← isExplored d.context then emitMissing b root rest
    else
      emit ⟨b.name, root, d, none⟩
      return (← emitMissing b root rest) + 1

/-- Hands out a row with an estimate, after which its context counts as explored. -/
def emitMeasured (b : Benchmark) (root : MethodId) (d : Decision) (est : Estimate) :
    Exploring W Unit := do
  emit ⟨b.name, root, d, some est⟩
  markExplored d.context

/-- Ends a root whose runs keep failing. -/
def giveUp (b : Benchmark) (decisions : List Decision) (report : RootReport) (fault : RunFault) :
    Exploring W RootReport := do
  say ("  " ++ report.root.text ++ ": giving up on branch after retries: " ++ fault.message ++ "\n")
  let missing ← emitMissing b report.root decisions
  return { report with
    missing := report.missing + missing, state := .exhausted, reason := fault.message }

/-- The calls to the root: in the child's run, else in the parent's, else as the forest has it. -/
def rootCalls (f : Forest) (root : MethodId) (child parent : Measurement) : Int :=
  Estimate.orElse (child.calls (some root)) (Estimate.orElse (parent.calls (some root))
    ((f.record? root).elim 0 (·.callCount)))

def estimate (f : Forest) (root : MethodId) (d : Decision) (child parent : Measurement) :
    Except Failure Estimate :=
  Estimate.ofRuns child parent (some d.callee) (some root) (some (rootCalls f root child parent))
    e.settings.bootstrapResamples e.settings.minSamples e.settings.seed

/-- A difference for the eye; zero has no sign of its own. -/
def deltaText (delta : Option Float) : String :=
  match delta with
  | some x => Decimal.signedWhole (if x == 0.0 then 0.0 else x)
  | none => Decimal.signedWhole 0.0

def pairNote (root : MethodId) (d : Decision) (est : Estimate) : String :=
  "  " ++ root.text ++ " +" ++ d.text ++ ": " ++ deltaText est.delta ++ " (confidence " ++
    est.confidence.elim "None" Decimal.text ++ ")\n"

/-- Grows a tree by the decisions; `parent` is its run, if that is known. -/
def grow (b : Benchmark) (f : Forest) (tree : Tree) (parent : Option Measurement)
    (report : RootReport) : List Decision → Exploring W RootReport
  | [] => return { report with state := .exhausted }
  | d :: rest => do
    if ← e.poll then return { report with state := .aborted }
    let child ← demand ((tree.insert d).mapError .tree)
    if ← isExplored d.context then
      grow b f child none { report with skipped := report.skipped + 1 } rest
    else match ← caught (e.measurePair b tree parent child) with
      | .error (.aborted point) => return { report with state := .aborted, reason := point.message }
      | .error (.run fault _) => giveUp b (d :: rest) report fault
      | .error failure => throw failure
      | .ok (parentRun, childRun) =>
        let est ← demand (e.estimate f report.root d childRun parentRun)
        emitMeasured b report.root d est
        if e.veryVerbose then say (pairNote report.root d est)
        grow b f child (some childRun) { report with pairs := report.pairs + 1 } rest

def noiseReason (empty full : Measurement) : String :=
  "full tree within noise of empty tree (" ++ Decimal.signedWhole (full.mean - empty.mean) ++ ")"

/-- Explores a root with some decision that is not explored yet. -/
def exploreTree (b : Benchmark) (f : Forest) (full : Tree) : Exploring W RootReport := do
  let report : RootReport := { root := full.root, state := .measuring }
  match ← caught (e.measureEnds b full) with
  | .error (.aborted point) => return { report with state := .aborted, reason := point.message }
  | .error (.run fault _) => giveUp b full.decisions report fault
  | .error failure => throw failure
  | .ok (emptyRun, fullRun) =>
    let threshold ← demand (e.settings.noiseThreshold.toFloat "noise threshold")
    let sigmas ← demand (e.settings.noiseSigmas.toFloat "noise sigmas")
    if ← demand (isNoise threshold sigmas emptyRun fullRun) then
      let reason := noiseReason emptyRun fullRun
      if e.verbose then say ("  " ++ full.root.text ++ ": short-circuited, " ++ reason ++ "\n")
      return { report with state := .shortCircuited, reason }
    else e.grow b f (.empty full.root) (some emptyRun) report full.decisions

def exploreRoot (b : Benchmark) (f : Forest) (root : MethodId) : Exploring W RootReport := do
  let full ← demand ((f.tree root).mapError .root)
  let explored := (← get).explored
  if full.decisions.isEmpty then
    return { root, state := .shortCircuited, reason := "no candidate decisions" }
  else if full.decisions.all fun d => explored.contains d.context then
    return { root, state := .exhausted, skipped := full.size,
             reason := "all decisions already explored" }
  else e.exploreTree b f full

end InlineImpact.Exploration.Explorer
