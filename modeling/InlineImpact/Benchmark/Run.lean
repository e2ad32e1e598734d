import InlineImpact.Benchmark.Command
import InlineImpact.Workspace

/-!
Running a benchmark once under a configuration. Before a process is started its log is made empty and
an older capture is removed, so whatever is found in them afterwards is this process's own. A run
counts only if it ends with the exit code the benchmark expects and, where a capture tool is set,
leaves a capture.
-/
namespace InlineImpact

/-- What a process is started with. -/
structure Launch where
  command : List String
  directory : String
  environment : Keyed String String
  /-- How long it may take, in seconds. -/
  limit : Float
  /-- Where its messages go. -/
  logFile : String

inductive Ending where
  | exited (code : Int)
  | timedOut
  | notStarted (error : StorageError)
  deriving DecidableEq, Repr

/-- Starts processes and waits for them. Whatever they do to the workspace is their own affair. -/
abbrev Launcher := Launch → Workspace → Ending × Workspace

/-- A run that counts. -/
structure CompletedRun where
  exitCode : Int
  logFile : String
  eventsFile : String
  command : List String
  deriving DecidableEq, Repr

/-- What an operation comes to that may print. -/
structure Trial (α : Type) where
  outcome : Except Failure α
  workspace : Workspace
  output : String := ""

namespace Benchmark

def hasNull (s : String) : Bool := s.toList.contains '\x00'

/-- The benchmark and the runner have to be there before anything is written. -/
def checkPresent (b : Benchmark) (s : Settings) (ws : Workspace) : Except Failure Unit :=
  if !ws.holds b.path then .error (.benchmark (.benchmark b.name b.path))
  else if !s.runner.isEmpty && !ws.holds s.runner then .error (.benchmark (.runner s.runner))
  else .ok ()

/-- The time limit of the benchmark, or that of the settings. -/
def limit (b : Benchmark) (s : Settings) : Yaml :=
  if !b.timeout.isFalsy then b.timeout
  else match s.runTimeout with
    | .whole n => .int n
    | .real x => .float x

/-- A time limit in seconds. -/
def limitSeconds : Yaml → Except Failure Float
  | .int n => match Decimal.floatOfInt? n with
    | some x => .ok x
    | none => .error (.outOfRange "time limit")
  | .float x => .ok x
  | .bool b => .ok (if b then 1.0 else 0.0)
  | _ => .error (.wrongKind "time limit")

/-- The command and the environment can be handed to a process. -/
def checkWords (l : Launch) : Except Failure Unit :=
  if l.command.any hasNull || l.environment.any fun (k, v) => k.contains '=' || hasNull k || hasNull v then
    .error (.badValue "word for a process")
  else .ok ()

/-- What to start. A limit that cannot be used leaves the process no time. -/
def launch (b : Benchmark) (c : Configuration) (s : Settings) (ambient : Keyed String String)
    (ws : Workspace) : Except Failure Launch := do
  let cwd := ws.hereText
  return {
    command := ← b.command c s cwd
    directory := b.directory cwd
    environment := ← b.environment c s cwd ambient
    limit := (limitSeconds (b.limit s)).toOption.getD 0.0
    logFile := c.logFile b.name }

def makeResultsDir (c : Configuration) (ws : Workspace) : Except Failure Workspace :=
  if hasNull c.resultsDir then .error (.badValue "path")
  else (ws.makeDirectories c.resultsDir).mapError .storage

/-- Removes the capture of an earlier run. -/
def dropCapture (b : Benchmark) (c : Configuration) (ws : Workspace) : Except Failure Workspace :=
  if ws.holds (c.eventsFile b.name) then (ws.remove (c.eventsFile b.name)).mapError .storage
  else .ok ws

def emptyLog (b : Benchmark) (c : Configuration) (ws : Workspace) : Except Failure Workspace :=
  if hasNull (c.logFile b.name) then .error (.badValue "path")
  else (ws.writeText (c.logFile b.name) "").mapError fun fault =>
    .run (.notLaunched b.name c.name fault) none

/-- What the exit of a process means; `ws` is what it left. Its own code is short, but the expected one may have
more digits than a message can hold. -/
def judgeExit (b : Benchmark) (c : Configuration) (s : Settings) (l : Launch) (code : Int) (ws : Workspace) :
    Except Failure CompletedRun :=
  if code ≠ b.exitCode then
    if Text.isWritable b.exitCode then .error (.run (.exited b.name c.name code b.exitCode) (some code))
    else .error (.badValue "exit code")
  else if !s.captureCommand.isEmpty && !ws.holds (c.eventsFile b.name) then
    .error (.run (.noCapture b.name c.name (c.eventsFile b.name)) (some code))
  else .ok ⟨code, l.logFile, c.eventsFile b.name, l.command⟩

/-- What an ending means. Once a process has started, its time limit has to be one. -/
def judge (b : Benchmark) (c : Configuration) (s : Settings) (l : Launch) (ending : Ending)
    (ws : Workspace) : Except Failure CompletedRun :=
  match ending with
  | .notStarted error =>
    .error (.run (.notLaunched b.name c.name ⟨error, l.command.headD ""⟩) none)
  | .timedOut => do
    let _ ← limitSeconds (b.limit s)
    .error (.run (.timedOut b.name c.name (b.limit s).display) none)
  | .exited code => do
    let _ ← limitSeconds (b.limit s)
    b.judgeExit c s l code ws

def launchNote (l : Launch) : String := "  Launching " ++ " ".intercalate l.command ++ "\n"

/-- Nothing is told of a process whose limit or whose expected code cannot be used. -/
def finishNote (b : Benchmark) (c : Configuration) (s : Settings) : Ending → String
  | .exited code =>
    if (limitSeconds (b.limit s)).isOk && Text.isWritable b.exitCode then
      "  Finished " ++ b.name ++ " -- configuration: " ++ c.name ++ ", exit code: " ++ toString code ++
        " (expected " ++ toString b.exitCode ++ ")\n"
    else ""
  | _ => ""

/-- Runs a launch that has been prepared. -/
def start (launcher : Launcher) (b : Benchmark) (c : Configuration) (s : Settings) (verbose : Bool)
    (l : Launch) (ws : Workspace) : Trial CompletedRun :=
  let note := if verbose then launchNote l else ""
  match b.dropCapture c ws with
  | .error failure => ⟨.error failure, ws, note⟩
  | .ok ws =>
    match b.emptyLog c ws with
    | .error failure => ⟨.error failure, ws, note⟩
    | .ok ws =>
      match checkWords l with
      | .error failure => ⟨.error failure, ws, note⟩
      | .ok () =>
        let (ending, ws) := launcher l ws
        ⟨b.judge c s l ending ws, ws, if verbose then note ++ b.finishNote c s ending else note⟩

/-- Runs a benchmark once and waits for it. -/
def run (launcher : Launcher) (ambient : Keyed String String) (b : Benchmark) (c : Configuration)
    (s : Settings) (verbose : Bool) (ws : Workspace) : Trial CompletedRun :=
  match b.checkPresent s ws with
  | .error failure => ⟨.error failure, ws, ""⟩
  | .ok () =>
    match makeResultsDir c ws with
    | .error failure => ⟨.error failure, ws, ""⟩
    | .ok ws =>
      match b.launch c s ambient ws with
      | .error failure => ⟨.error failure, ws, ""⟩
      | .ok l => b.start launcher c s verbose l ws

end Benchmark

end InlineImpact
