import InlineImpact.Benchmark
import InlineImpact.Settings
import InlineImpact.Template

/-!
What a run of a benchmark is given: how many iterations, which command, and which environment. Settings
of the configuration win over all else in the environment.
-/
namespace InlineImpact.Benchmark

/-- As many iterations as keep a run near its target time, and at least the least number. -/
def iterations (b : Benchmark) (s : Settings) : Except Failure Int :=
  if b.expectedTime ≤ 0.0 then .ok s.minIterations
  else do
    let wanted := (← s.targetSeconds.toFloat "target time") / b.expectedTime
    match Decimal.ceiling? wanted with
    | some n => return max s.minIterations n
    | none => .error (if wanted.isNaN then .badValue "iterations" else .outOfRange "iterations")

/-- The words that start the capture tool, if one is set. -/
def captureWords (b : Benchmark) (c : Configuration) (s : Settings) : Except Failure (List String) :=
  if s.captureCommand.isEmpty then .ok []
  else
    let values : Keyed String Template.Value :=
      [("events", .text (c.eventsFile b.name).toList), ("interval", .int s.pmcInterval)]
    match Template.fill values s.captureCommand with
    | .ok text => .ok ((Text.words text).map String.ofList)
    | .error fault => .error (.template fault)

/-- The capture tool and the runner stand before the benchmark, which gets the rest. -/
def command (b : Benchmark) (c : Configuration) (s : Settings) (cwd : String) :
    Except Failure (List String) := do
  let capture ← b.captureWords c s
  let runner := if s.runner.isEmpty then [] else [s.runner]
  return capture ++ runner ++ Path.absolute cwd b.path :: b.args

/-- The variable that tells a benchmark its number of iterations. -/
def iterationsVariable : String := "EXPLORER_ITERATIONS"

/-- The variable that tells a runner where it is. -/
def runnerVariable : String := "CORE_ROOT"

/-- The number of iterations as the benchmark is told it. -/
def iterationsText (b : Benchmark) (s : Settings) : Except Failure String := do
  let count ← b.iterations s
  if Text.isWritable count then return toString count else .error (.badValue "iterations")

def environment (b : Benchmark) (c : Configuration) (s : Settings) (cwd : String)
    (ambient : Keyed String String) : Except Failure (Keyed String String) := do
  let env := ambient.put iterationsVariable (← b.iterationsText s)
  let env := if s.runner.isEmpty then env
    else env.put runnerVariable (Path.directory (Path.absolute cwd s.runner))
  return c.settings.foldl (fun env (k, v) => env.put k v) env

end InlineImpact.Benchmark
