import InlineImpact.Configuration
import InlineImpact.Quantity

/-!
The settings of an exploration: where its results go, how benchmarks are run, and how much evidence is
asked for.
-/
namespace InlineImpact

structure Settings where
  resultsDir : String := defaultResultsDir
  /-- The program that runs benchmarks; without one they are run directly. -/
  runner : String := ""
  /-- The template of the command that captures counters. -/
  captureCommand : String := ""
  /-- Instructions for each rollover of the counter. -/
  pmcInterval : Int := 100000
  minIterations : Int := 5
  /-- How long a run should take. -/
  targetSeconds : Quantity := .real 10.0
  runTimeout : Quantity := .whole 600
  /-- How often a failed run is tried again. -/
  maxRetries : Int := 2
  noiseThreshold : Quantity := .real 0.01
  noiseSigmas : Quantity := .real 2.0
  depthLimit : Int := defaultDepthLimit
  bootstrapResamples : Int := 1000
  minSamples : Int := 3
  seed : Int := 0

namespace Settings

/-- The settings by the names they are shown and changed by. -/
def fields (s : Settings) : List (String × Datum) := [
  ("results_dir", .text s.resultsDir), ("runner", .text s.runner),
  ("capture_command", .text s.captureCommand), ("pmc_interval", .int s.pmcInterval),
  ("min_iterations", .int s.minIterations), ("target_seconds", s.targetSeconds.datum),
  ("run_timeout", s.runTimeout.datum), ("max_retries", .int s.maxRetries),
  ("noise_threshold", s.noiseThreshold.datum), ("noise_sigmas", s.noiseSigmas.datum),
  ("depth_limit", .int s.depthLimit), ("bootstrap_resamples", .int s.bootstrapResamples),
  ("min_samples", .int s.minSamples), ("seed", .int s.seed)]

/-- Changes one setting, if there is one of this name that takes such a value. -/
def set? (s : Settings) (name : String) (value : Datum) : Option Settings :=
  match name, value with
  | "results_dir", .text t => some { s with resultsDir := t }
  | "results_dir", .none => some { s with resultsDir := "" }
  | "runner", .text t => some { s with runner := t }
  | "capture_command", .text t => some { s with captureCommand := t }
  | "pmc_interval", .int n => some { s with pmcInterval := n }
  | "min_iterations", .int n => some { s with minIterations := n }
  | "target_seconds", v => (Quantity.ofDatum? v).map fun q => { s with targetSeconds := q }
  | "run_timeout", v => (Quantity.ofDatum? v).map fun q => { s with runTimeout := q }
  | "max_retries", .int n => some { s with maxRetries := n }
  | "noise_threshold", v => (Quantity.ofDatum? v).map fun q => { s with noiseThreshold := q }
  | "noise_sigmas", v => (Quantity.ofDatum? v).map fun q => { s with noiseSigmas := q }
  | "depth_limit", .int n => some { s with depthLimit := n }
  | "bootstrap_resamples", .int n => some { s with bootstrapResamples := n }
  | "min_samples", .int n => some { s with minSamples := n }
  | "seed", .int n => some { s with seed := n }
  | _, _ => none

/-- Results go to `standard` unless the settings name a place. -/
def completed (s : Settings) (standard : String) : Settings :=
  if s.resultsDir.isEmpty then { s with resultsDir := standard } else s

/-- Changes settings by name, one after the other. -/
def setAll? (s : Settings) : List (String × Datum) → Option Settings
  | [] => some s
  | (name, value) :: rest => (s.set? name value).bind (setAll? · rest)

/-- The settings with some of them changed by name. -/
def override (s : Settings) (standard : String) (changes : List (String × Datum)) : Option Settings :=
  (s.setAll? changes).map (·.completed standard)

end Settings

end InlineImpact
