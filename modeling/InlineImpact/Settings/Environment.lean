import InlineImpact.Failure
import InlineImpact.Path
import InlineImpact.Settings
import InlineImpact.Text.Numeral

/-!
Settings from the variables of the environment. Variables that are missing leave a setting as it is
otherwise; the runner is looked for in the root of the runtime unless it is named itself.
-/
namespace InlineImpact.Settings

/-- What an environment says. -/
structure Surroundings where
  /-- The root of the runtime, as it is given. -/
  coreRoot : String
  settings : Settings

def textFrom (env : Keyed String String) (name default : String) : String :=
  (env.get? name).getD default

def intFrom (env : Keyed String String) (name : String) (default : Int) : Except Failure Int :=
  match env.get? name with
  | none => .ok default
  | some s =>
    match Text.readInt? s.toList with
    | some n => .ok n
    | none => .error (.badValue name)

def realFrom (env : Keyed String String) (name : String) (default : Quantity) :
    Except Failure Quantity :=
  match env.get? name with
  | none => .ok default
  | some s =>
    match Text.readFloat? s.toList with
    | some x => .ok (.real x)
    | none => .error (.badValue name)

/-- A whole number, kept as a quantity. -/
def wholeFrom (env : Keyed String String) (name : String) (default : Quantity) :
    Except Failure Quantity :=
  match env.get? name with
  | none => .ok default
  | some _ => (intFrom env name 0).map .whole

/-- The program that runs benchmarks, in the root of the runtime if there is one. -/
def runnerIn (coreRoot : String) : String :=
  if coreRoot.isEmpty then "" else Path.join coreRoot "corerun"

/-- Reads the environment; results go to `standard` unless it says otherwise. -/
def readEnvironment (env : Keyed String String) (standard : String) : Except Failure Surroundings := do
  let coreRoot := textFrom env "CORE_ROOT" ""
  let d : Settings := {}
  let settings : Settings := {
    resultsDir := (PurePath.ofText (textFrom env "EXPLORER_RESULTS_DIR" standard)).text
    runner := textFrom env "EXPLORER_RUNNER" (runnerIn coreRoot)
    captureCommand := textFrom env "EXPLORER_CAPTURE_COMMAND" ""
    pmcInterval := ← intFrom env "EXPLORER_PMC_INTERVAL" d.pmcInterval
    minIterations := ← intFrom env "EXPLORER_MIN_ITERATIONS" d.minIterations
    targetSeconds := ← realFrom env "EXPLORER_TARGET_SECONDS" d.targetSeconds
    runTimeout := ← wholeFrom env "EXPLORER_RUN_TIMEOUT" d.runTimeout
    maxRetries := ← intFrom env "EXPLORER_MAX_RETRIES" d.maxRetries
    noiseThreshold := ← realFrom env "EXPLORER_NOISE_THRESHOLD" d.noiseThreshold
    noiseSigmas := ← realFrom env "EXPLORER_NOISE_SIGMAS" d.noiseSigmas
    depthLimit := ← intFrom env "EXPLORER_DEPTH_LIMIT" d.depthLimit
    bootstrapResamples := ← intFrom env "EXPLORER_BOOTSTRAP_RESAMPLES" d.bootstrapResamples
    minSamples := ← intFrom env "EXPLORER_MIN_SAMPLES" d.minSamples
    seed := ← intFrom env "EXPLORER_SEED" d.seed }
  return ⟨coreRoot, settings⟩

def warning (text : String) : String := "⚠️  WARNING: " ++ text ++ "\n"

/-- Warns of a runner that is not there. -/
def runnerWarning (s : Settings) (ws : Workspace) : String :=
  if s.runner.isEmpty || ws.holds s.runner then ""
  else warning ("Runner not found at " ++ s.runner ++ ". Benchmarks will fail to launch.")

/-- Warns of a capture tool that cannot be started. -/
def captureWarning (s : Settings) (finds : String → Bool) : Except Failure String :=
  if s.captureCommand.isEmpty then .ok ""
  else match Text.words s.captureCommand.toList with
    | [] => .error (.missingItem "capture command")
    | tool :: _ =>
      let tool := String.ofList tool
      .ok (if finds tool then "" else warning ("Capture tool '" ++ tool ++ "' is not on PATH."))

/-- Makes the directory for results and gives the warnings about what is missing. -/
def makeReady (s : Settings) (ws : Workspace) (finds : Workspace → String → Bool) :
    Except Failure (String × Workspace) := do
  let ws ← (ws.makeDirectories s.resultsDir).mapError .storage
  return (runnerWarning s ws ++ (← captureWarning s (finds ws)), ws)

end InlineImpact.Settings
