import InlineImpact.Exploration.Session
import InlineImpact.Forest.Load
import InlineImpact.Replay

/-!
Measuring a benchmark under a configuration or a tree. A failed run is tried again, unless an abort is
requested; what was measured once is not measured again.
-/
namespace InlineImpact.Exploration.Explorer

variable {W : Type} (e : Explorer W)

/-- A run and the reading of its capture. A capture that cannot be read makes a failed run. -/
def attempt (b : Benchmark) (c : Configuration) : Exploring W (CompletedRun × Measurement) := do
  let run ← e.launch b c
  match ← caught (e.load run.eventsFile) with
  | .ok m => return (run, m)
  | .error failure =>
    if failure.isUnreadable then
      throw (.run (.unreadableCapture b.name c.name failure.message) (some run.exitCode))
    else throw failure

def retryNote (number : Nat) (retries : Int) (b : Benchmark) (c : Configuration) : String :=
  "  Retry " ++ toString number ++ "/" ++ toString retries ++ ": " ++ RunFault.subject b.name c.name ++ "\n"

/-- Attempts with `left` retries to go; `number` is that of the next one. The last fault stands. -/
def attempts (b : Benchmark) (c : Configuration) (number : Nat) (left : Nat) :
    Exploring W (CompletedRun × Measurement) := do
  match ← caught (e.attempt b c) with
  | .ok r => return r
  | .error (.run fault code) =>
    say ("  ERROR: " ++ fault.message ++ "\n")
    match left with
    | 0 => throw (.run fault code)
    | left + 1 =>
      if ← e.poll then throw (.aborted (.afterFailure b.name c.name))
      say (retryNote number e.settings.maxRetries b c)
      attempts b c (number + 1) left
  | .error failure => throw failure

/-- Runs a benchmark until a run counts, or the retries are used up. -/
def run (b : Benchmark) (c : Configuration) : Exploring W (CompletedRun × Measurement) :=
  if e.settings.maxRetries < 0 then throw (.wrongKind "no attempt was made")
  else e.attempts b c 1 e.settings.maxRetries.toNat

def remember (b : Benchmark) (c : Configuration) (m : Measurement) : Exploring W Unit :=
  modify fun s => { s with measurements := s.measurements.put (b.name, c.name) m }

/-- The measurement under a configuration, from an earlier run if there is one. -/
def measure (b : Benchmark) (c : Configuration) : Exploring W Measurement := do
  match (← get).measurements.get? (b.name, c.name) with
  | some m => return m
  | none =>
    let (_, m) ← e.run b c
    remember b c m
    return m

/-- Writes a tree out for replay. -/
def prepare (t : Tree) : Exploring W Configuration := do
  let (c, workspace) ← demand (Replay.prepare (← get).workspace t e.settings.resultsDir)
  modify fun s => { s with workspace }.note (.prepared t)
  return c

def measureTree (b : Benchmark) (t : Tree) : Exploring W Measurement := do
  e.measure b (← e.prepare t)

/-- The forest that a run reported in its log. -/
def loadForest (run : CompletedRun) : Exploring W Forest := do
  let f ← demand (Forest.load (← get).workspace run.logFile)
  modify fun s => s.note (.reported f)
  return f

def modelNote (model : String) (f : Forest) : String :=
  "*** " ++ model ++ " config has " ++ toString f.size ++ " methods, " ++ toString f.inlineCount ++
    " inlines\n"

/-- Runs a model anew and loads its forest. -/
def capture (b : Benchmark) (c : Configuration) : Exploring W (Forest × Measurement) := do
  let (run, m) ← e.run b c
  remember b c m
  return (← loadForest run, m)

def fullModel : Configuration := .full e.settings.resultsDir e.settings.depthLimit

/-- The forest and the measurement of the full model. -/
def fullForest (b : Benchmark) : Exploring W (Forest × Measurement) := do
  let (f, m) ← e.capture b e.fullModel
  if e.verbose then say (modelNote "Full" f)
  return (f, m)

/-- The three models with the names they are announced by. -/
def models : List (String × Configuration) := [
  ("Base", .base e.settings.resultsDir), ("Default", .standard e.settings.resultsDir),
  ("Full", e.fullModel)]

def buildModelsFrom (b : Benchmark) :
    List (String × Configuration) → Exploring W (List (String × Forest))
  | [] => return []
  | (title, c) :: rest => do
    let (f, _) ← e.capture b c
    say (modelNote title f)
    return (c.name, f) :: (← buildModelsFrom b rest)

/-- The forests of the base, default and full models by name. -/
def buildModels (b : Benchmark) : Exploring W (List (String × Forest)) :=
  e.buildModelsFrom b e.models

end InlineImpact.Exploration.Explorer
