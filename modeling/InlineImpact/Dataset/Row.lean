import InlineImpact.Dataset.Columns
import InlineImpact.Decimal.Rounding
import InlineImpact.Decision
import InlineImpact.Estimate

/-!
Rows of a dataset: a decision with its estimate, or without one where data is missing.
-/
namespace InlineImpact.Dataset

structure Row where
  benchmark : String
  root : MethodId
  decision : Decision
  estimate : Option Estimate := none

/-- A measured value, rounded to six places; a value that is not there leaves its cell empty. -/
def rounded : Option Float → Datum
  | some x => .float (Decimal.roundTo 6 x)
  | none => .text ""

namespace Row

def status (r : Row) : Status := r.estimate.elim .missing (·.status)

/-- What identifies the row. -/
def identity (r : Row) : List (String × Datum) :=
  [("Benchmark", .text r.benchmark), ("Method", .text r.root.text),
    ("Decision", .text r.decision.text), ("Callee", .text r.decision.callee.text),
    ("TreeDepth", .int r.decision.depth), ("Reason", .text r.decision.reason)]

/-- What was measured, and how far it can be trusted. -/
def outcome (r : Row) : Except Failure (List (String × Datum)) := do
  let (perCall, perRootCall) ← match r.estimate with
    | some e => pure (← e.perCall, ← e.perRootCall)
    | none => pure (none, none)
  let delta := r.estimate.bind (·.delta)
  return [("Status", .text r.status.text),
    ("Confidence", rounded (r.estimate.bind (·.confidence))),
    ("InstRetiredDelta", rounded delta),
    ("InstRetiredSD", rounded (r.estimate.bind (·.deviation))),
    ("CallDelta", match r.estimate, delta with
      | some e, some _ => .int e.callDelta
      | _, _ => .text ""),
    ("InstRetiredPerCallDelta", rounded perCall),
    ("RootCallCount", r.estimate.elim (.text "") fun e => .int e.rootCalls),
    ("InstRetiredPerRootCallDelta", rounded perRootCall)]

/-- The values of a row by name. What identifies a row and what was measured stands above values of
the compiler with the same names. -/
def record (r : Row) (columns : Columns) : Except Failure (Keyed String Datum) := do
  let passed := r.decision.features.filter fun (name, _) => columns.passesThrough name
  return Keyed.ofPairs (passed ++ r.identity ++ (← r.outcome))

/-- The cells of a row, one for each column. -/
def cells (r : Row) (columns : Columns) : Except Failure (List String) := do
  let values ← r.record columns
  return columns.names.map fun name => ((values.get? name).elim "" Datum.cell)

end Row

end InlineImpact.Dataset
