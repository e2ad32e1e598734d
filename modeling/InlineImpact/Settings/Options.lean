import InlineImpact.Options
import InlineImpact.Settings
import InlineImpact.Text.Numeral

/-!
The settings that a command line can give, over those of the environment.
-/
namespace InlineImpact.Settings

/-- What a command line says about the settings. -/
structure Choices where
  resultsDir : String := ""
  runner : String := ""
  maxRetries : Option Int := none
  noiseThreshold : Option Float := none
  resamples : Option Int := none

def options : List Options.Spec := [
  ⟨["--results-dir"], .one⟩, ⟨["--runner"], .one⟩, ⟨["--max-retries"], .one⟩,
  ⟨["--noise-threshold"], .one⟩, ⟨["--resamples"], .one⟩]

namespace Choices

/-- Takes an option up; fails if its value cannot be read. -/
def take (c : Choices) (option value : String) : Option Choices :=
  match option with
  | "--results-dir" => some { c with resultsDir := value }
  | "--runner" => some { c with runner := value }
  | "--max-retries" => (Text.readInt? value.toList).map fun n => { c with maxRetries := some n }
  | "--noise-threshold" =>
    (Text.readFloat? value.toList).map fun x => { c with noiseThreshold := some x }
  | "--resamples" => (Text.readInt? value.toList).map fun n => { c with resamples := some n }
  | _ => some c

/-- Empty texts choose nothing. -/
def apply (c : Choices) (s : Settings) : Settings := { s with
  resultsDir := if c.resultsDir.isEmpty then s.resultsDir else c.resultsDir
  runner := if c.runner.isEmpty then s.runner else c.runner
  maxRetries := c.maxRetries.getD s.maxRetries
  noiseThreshold := (c.noiseThreshold.map .real).getD s.noiseThreshold
  bootstrapResamples := c.resamples.getD s.bootstrapResamples }

end Choices

/-- How a command line is turned down: with an error, or because it only asks for help. -/
inductive Refusal where
  | rejected
  | help
  deriving DecidableEq, Repr

def helpOption : Options.Spec := ⟨["--help", "-h"], .nothing⟩

/-- Takes events up in order, each by `take`; words that belong to no option are refused at the end. -/
def takeAll (take : α → String → List String → Option α) (a : α) :
    List Options.Event → Except Refusal α
  | [] => .ok a
  | .refused :: _ => .error .rejected
  | .stray _ :: rest =>
    match takeAll take a rest with
    | .error r => .error r
    | .ok _ => .error .rejected
  | .given option values :: rest =>
    if option == helpOption.key then .error .help
    else match take a option values with
      | some a => takeAll take a rest
      | none => .error .rejected

/-- Reads a command line that holds nothing but choices of settings. -/
def readChoices (words : List String) : Except Refusal Choices :=
  takeAll (fun c option values => c.take option (values.headD "")) {}
    (Options.read (helpOption :: options) words)

end InlineImpact.Settings
