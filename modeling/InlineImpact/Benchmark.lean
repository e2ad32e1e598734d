import InlineImpact.Path
import InlineImpact.Yaml

/-!
Benchmarks: an executable, and what a successful run of it looks like.
-/
namespace InlineImpact

structure Benchmark where
  name : String
  path : String
  /-- Roughly how long one iteration takes, in seconds. -/
  expectedTime : Float := 1.0
  /-- The exit code of a successful run. -/
  exitCode : Int := 100
  args : List String := []
  /-- How long a run may take, as the suite gives it; without one the settings decide. -/
  timeout : Yaml := .null

/-- The directory that the executable is in. -/
def Benchmark.directory (b : Benchmark) (cwd : String) : String :=
  Path.directory (Path.absolute cwd b.path)

end InlineImpact
