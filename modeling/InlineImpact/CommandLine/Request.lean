import InlineImpact.Settings.Options

/-!
What a command line asks for.
-/
namespace InlineImpact.CommandLine

structure Request where
  /-- The file that names the benchmarks. -/
  suite : Option String := none
  /-- The benchmarks to take, or all of them. -/
  only : List String := []
  /-- Where rows go; without one, into the directory for results. -/
  dataset : String := ""
  listOnly : Bool := false
  dryRun : Bool := false
  modelsOnly : Bool := false
  verbosity : Nat := 0
  choices : Settings.Choices := {}

namespace Request

def options : List Options.Spec := Settings.helpOption :: [
  ⟨["--suite", "-s"], .one⟩, ⟨["--only"], .several⟩, ⟨["--dataset", "-o"], .one⟩,
  ⟨["--list"], .nothing⟩, ⟨["--dry-run"], .nothing⟩, ⟨["--models-only"], .nothing⟩,
  ⟨["--verbose", "-v"], .nothing⟩] ++ Settings.options

def take (r : Request) (option : String) (values : List String) : Option Request :=
  let value := values.headD ""
  match option with
  | "--suite" => some { r with suite := some value }
  | "--only" => some { r with only := values }
  | "--dataset" => some { r with dataset := value }
  | "--list" => some { r with listOnly := true }
  | "--dry-run" => some { r with dryRun := true }
  | "--models-only" => some { r with modelsOnly := true }
  | "--verbose" => some { r with verbosity := r.verbosity + 1 }
  | _ => (r.choices.take option value).map fun choices => { r with choices }

/-- Reads a command line; a suite has to be given. -/
def read (words : List String) : Except Settings.Refusal Request := do
  let r ← Settings.takeAll take {} (Options.read options words)
  if r.suite.isNone then .error .rejected else return r

end Request

end InlineImpact.CommandLine
