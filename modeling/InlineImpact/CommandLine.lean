import InlineImpact.CommandLine.Request
import InlineImpact.Exploration
import InlineImpact.Exploration.Process
import InlineImpact.Suite

/-!
The command line: lists the benchmarks of a suite, shows the settings, captures the models, or explores.
The code that it ends with is zero unless counters or executables are missing.
-/
namespace InlineImpact.CommandLine

/-- What the command line runs in. -/
structure Surroundings where
  /-- The settings unless the command line chooses others. -/
  settings : Settings
  launcher : Launcher
  environment : Keyed String String
  /-- What the host says about counters once the files are as they are. -/
  facts : Workspace → Capture.HostFacts

def datasetPath (r : Request) (s : Settings) : String :=
  if r.dataset.isEmpty then Path.join s.resultsDir "inline-data.csv" else r.dataset

def listing (benchmarks : List Benchmark) : String :=
  "Benchmarks:\n\n" ++ "".intercalate (benchmarks.map fun b =>
    "    - " ++ b.name ++ ": " ++ b.path ++ "\n")

def jsonOf : Datum → Json
  | .int n => .int n
  | .float x => .float x
  | .text s => .string s
  | .bool b => .bool b
  | .none => .null

/-- The settings, the dataset and the benchmarks, without running anything. -/
def preview (r : Request) (s : Settings) (benchmarks : List Benchmark) : String :=
  Json.write Json.indented (.object [
    ("config", .object (s.fields.map fun (name, value) => (name, jsonOf value))),
    ("dataset", .string (datasetPath r s)),
    ("benchmarks", .array (benchmarks.map fun b => .string b.name))]) ++ "\n"

open Exploration

def explorer (env : Surroundings) (r : Request) (s : Settings) (ws : Workspace) : Explorer Unit := {
  host := processHost env.launcher env.environment (env.facts ws)
  settings := s
  verbose := 0 < r.verbosity
  veryVerbose := 1 < r.verbosity }

/-- Captures the models of every benchmark; one that fails does not stop the others. -/
def captureModels (e : Explorer Unit) : List Benchmark → Exploring Unit Unit
  | [] => return ()
  | b :: rest => do
    match ← caught (e.buildModels b) with
    | .ok _ => captureModels e rest
    | .error failure =>
      match Explorer.verdict? failure with
      | some .skip =>
        say ("Error: " ++ b.name ++ ": " ++ failure.message ++ "\n")
        captureModels e rest
      | _ => throw failure

def reportText (path : String) (report : Report) : String :=
  Json.write Json.indented report.toJson ++ "\nDataset: " ++ path ++ " (" ++
    toString report.rowsWritten ++ " rows)\n"

/-- What is done with an open dataset. -/
def work (e : Explorer Unit) (r : Request) (path : String) (benchmarks : List Benchmark) :
    Exploring Unit Unit := do
  if r.modelsOnly then captureModels e benchmarks
  else say (reportText path (← e.explore benchmarks))

/-- The failures that end the program with a message and the code one. -/
def isAnnounced : Failure → Bool
  | .counters _ | .benchmark _ => true
  | _ => false

def conclude (outcome : Except Failure Unit) (s : Session Unit) : Trial Int :=
  match outcome with
  | .ok () => ⟨.ok 0, s.workspace, s.output⟩
  | .error failure =>
    if isAnnounced failure then ⟨.ok 1, s.workspace, s.output ++ "Error: " ++ failure.message ++ "\n"⟩
    else ⟨.error failure, s.workspace, s.output⟩

/-- Opens the dataset and goes to work. -/
def runWith (env : Surroundings) (r : Request) (s : Settings) (benchmarks : List Benchmark)
    (ws : Workspace) : Trial Int :=
  let path := datasetPath r s
  let writer : Dataset.Writer := { path }
  match writer.start ws with
  | (.error failure, _, ws) => ⟨.error failure, ws, ""⟩
  | (.ok (), writer, ws) =>
    let session : Session Unit := { world := (), workspace := ws, dataset := some writer }
    let (outcome, session) := (work (explorer env r s ws) r path benchmarks).on session
    conclude outcome session

/-- Carries a request out. -/
def run (env : Surroundings) (r : Request) (ws : Workspace) : Trial Int :=
  let settings := (r.choices.apply env.settings).completed env.settings.resultsDir
  match Suite.load ws (r.suite.getD "") r.only with
  | .error failure => ⟨.error failure, ws, ""⟩
  | .ok benchmarks =>
    if r.listOnly then ⟨.ok 0, ws, listing benchmarks⟩
    else if r.dryRun then ⟨.ok 0, ws, preview r settings benchmarks⟩
    else runWith env r settings benchmarks ws

end InlineImpact.CommandLine
