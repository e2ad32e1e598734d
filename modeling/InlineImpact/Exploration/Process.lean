import InlineImpact.Capture.Aggregate
import InlineImpact.Capture.Probe
import InlineImpact.Exploration.Session

/-!
The host that runs benchmarks as processes and reads the captures they leave.
-/
namespace InlineImpact.Exploration

/-- A host that starts processes by a launcher in an environment, and is never asked to abort. -/
def processHost (launcher : Launcher) (ambient : Keyed String String) (facts : Capture.HostFacts) :
    Host Unit where
  probe := Capture.probe facts
  run settings verbose b c ws _ := (b.run launcher ambient c settings verbose ws, ())
  load path interval ws _ := (Capture.load ws path interval, ())
  poll _ := (false, ())

end InlineImpact.Exploration
