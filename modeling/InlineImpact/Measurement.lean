import InlineImpact.Keyed
import InlineImpact.MethodId
import InlineImpact.Statistics

/-!
What one run of a benchmark measured: instructions per iteration and calls per method.
-/
namespace InlineImpact

structure Measurement where
  samples : List Float := []
  /-- Iterations in which nothing was counted. -/
  discarded : Int := 0
  /-- Calls by the written form of a method, with or without its hash. -/
  callCounts : Keyed String Int := []

namespace Measurement

def size (m : Measurement) : Nat := m.samples.length

def mean (m : Measurement) : Float := if m.samples.isEmpty then 0.0 else Statistics.mean m.samples

def deviation (m : Measurement) : Float :=
  if m.size < 2 then 0.0 else Statistics.deviation m.samples

/-- The calls to a method. A count without a hash stands for every method with its token. -/
def callsTo (m : Measurement) (method : MethodId) : Int :=
  (m.callCounts.get? method.text <|> m.callCounts.get? method.tokenText).getD 0

def calls (m : Measurement) (method : Option MethodId) : Int := method.elim 0 m.callsTo

end Measurement

end InlineImpact
