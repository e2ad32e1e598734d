import InlineImpact.Exploration.Session
import InlineImpact.Capture.Aggregate
import InlineImpact.Forest.Load

/-!
A rehearsed host: instead of running benchmarks it follows a plan. The plan says which runs fail, what
forests are reported, what each decision saves, and when an abort is requested; logs and captures are
written as real runs would write them.
-/
namespace InlineImpact

namespace Rehearsal

/-- Picks runs. What it says about trees no run without one fulfils. -/
structure Rule where
  benchmark : Option String := none
  configuration : Option String := none
  root : Option String := none
  size : Option Int := none
  has : Option CallPath := none

def Rule.picks (r : Rule) (benchmark configuration : String) (tree : Option Tree) : Bool :=
  r.benchmark.all (· == benchmark) && r.configuration.all (· == configuration) &&
    r.root.all (fun s => tree.any fun t => t.root.text == s) &&
    r.size.all (fun n => tree.any fun t => (t.size : Int) = n) &&
    r.has.all fun p => tree.any fun t => (t.find? p).isSome

/-- Runs that fail, for a number of times or always. -/
structure Breakdown where
  rule : Rule
  times : Option Int := none
  message : String := "exited with -1"

def Breakdown.isSpent (b : Breakdown) : Bool := b.times.any (· ≤ 0)

/-- When an abort is requested: from a number of runs on, or after a number of questions. -/
structure AbortPlan where
  afterRuns : Option Int := none
  afterChecks : Option Int := none

structure Plan where
  forests : Keyed String String := []
  forest : String := ""
  /-- Runs that leave the capture as it is. -/
  silent : List Rule := []
  /-- Runs with a capture of its own text. -/
  captures : List (Rule × String) := []
  /-- The events of an iteration without any decision. -/
  base : Int := 1000000
  /-- How much less an iteration takes with the decision at a path. -/
  savings : List (CallPath × Int) := []
  calls : Keyed String Int := []
  /-- How the calls to a method change with the decision at a path. -/
  callChanges : List (CallPath × String × Int) := []
  /-- What is added to the iterations, in turn. -/
  jitter : List Int := [0, 0, 0, 0, 0]
  abort : Option AbortPlan := none
  /-- Why counters cannot be captured. -/
  refusal : Option String := none

structure State where
  breakdowns : List Breakdown := []
  runs : Nat := 0
  checks : Nat := 0

/-- The first breakdown that strikes a run, and all of them after it. -/
def strike (benchmark configuration : String) (tree : Option Tree) :
    List Breakdown → Option (String × List Breakdown)
  | [] => none
  | b :: rest =>
    if b.rule.picks benchmark configuration tree && !b.isSpent then
      some (b.message, { b with times := b.times.map (· - 1) } :: rest)
    else (strike benchmark configuration tree rest).map fun (m, rest) => (m, b :: rest)

/-- The tree that a configuration replays. -/
def replayed (c : Configuration) (ws : Workspace) : Option Tree :=
  (c.settings.get? "COMPlus_JitInlineReplayFile").bind fun path =>
    match Forest.load ws path with
    | .ok f => f.trees.head?
    | .error _ => none

def holds (tree : Option Tree) (p : CallPath) : Bool := tree.any fun t => (t.find? p).isSome

def line (fields : List (String × Json)) : String := Json.write Json.compact (.object fields) ++ "\n"

/-- The lines of one iteration. -/
def iterationLines (i : Nat) (count : Int) : String :=
  let start : Int := 10 * i
  line [("kind", .string "iteration"), ("pid", .int 1), ("start", .int start), ("end", .int (start + 5))] ++
    line [("kind", .string "pmc"), ("pid", .int 1), ("ts", .int (start + 1)), ("count", .int count)]

/-- A capture as the plan has it: iterations by savings and jitter, then the calls. -/
def Plan.capture (p : Plan) (tree : Option Tree) : String :=
  let count := (p.savings.filter fun s => holds tree s.1).foldl (fun n s => n - s.2) p.base
  let calls := (p.callChanges.filter fun c => holds tree c.1).foldl
    (fun calls (_, key, n) => calls.put key ((Keyed.get? key calls).getD 0 + n)) p.calls
  let turn := (tree.elim 0 Tree.size) + 1
  let iterations := (List.range p.jitter.length).map fun i =>
    iterationLines i (count + (p.jitter[i * turn % p.jitter.length]?).getD 0)
  let records := calls.map fun (key, n) =>
    line [("kind", .string "calls"), ("method", .string key), ("count", .int n)]
  "".intercalate (iterations ++ records)

def Plan.log (p : Plan) (benchmark : String) (tree : Option Tree) : String :=
  if tree.isSome then "" else (p.forests.get? benchmark).getD p.forest

/-- Writes log and capture of a run. -/
def Plan.writeArtifacts (p : Plan) (b : Benchmark) (c : Configuration) (tree : Option Tree)
    (ws : Workspace) : Except StorageFault Workspace := do
  let ws ← ws.makeDirectories c.resultsDir
  let ws ← ws.writeText (c.logFile b.name) (p.log b.name tree)
  if p.silent.any fun r => r.picks b.name c.name tree then return ws
  else
    let text := match p.captures.find? fun r => r.1.picks b.name c.name tree with
      | some (_, text) => text
      | none => p.capture tree
    ws.writeText (c.eventsFile b.name) text

def Plan.run (p : Plan) (b : Benchmark) (c : Configuration) (ws : Workspace) (st : State) :
    Trial CompletedRun × State :=
  let st := { st with runs := st.runs + 1 }
  let tree := replayed c ws
  match strike b.name c.name tree st.breakdowns with
  | some (message, breakdowns) =>
    let fault := RunFault.reported (RunFault.subject b.name c.name ++ " " ++ message)
    (⟨.error (.run fault none), ws, ""⟩, { st with breakdowns })
  | none =>
    match p.writeArtifacts b c tree ws with
    | .error fault => (⟨.error (.storage fault), ws, ""⟩, st)
    | .ok ws =>
      (⟨.ok ⟨b.exitCode, c.logFile b.name, c.eventsFile b.name, []⟩, ws, ""⟩, st)

def Plan.poll (p : Plan) (st : State) : Bool × State :=
  match p.abort with
  | none => (false, st)
  | some a =>
    let st := { st with checks := st.checks + 1 }
    (a.afterRuns.any (· ≤ st.runs) || a.afterChecks.any (· < st.checks), st)

end Rehearsal

/-- The host that follows a plan. -/
def Rehearsal.Plan.host (p : Plan) : Exploration.Host State where
  probe _ := match p.refusal with
    | some message => .error (.counters (.reported message))
    | none => .ok ()
  run _ _ b c ws st := p.run b c ws st
  load path interval ws st := (Capture.load ws path interval, st)
  poll := p.poll

end InlineImpact
