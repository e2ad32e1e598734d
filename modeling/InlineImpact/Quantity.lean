import InlineImpact.Datum
import InlineImpact.Failure

/-!
Quantities: numbers that stay as they are given, whole or as doubles.
-/
namespace InlineImpact

inductive Quantity where
  | whole (n : Int)
  | real (x : Float)

namespace Quantity

def datum : Quantity → Datum
  | whole n => .int n
  | real x => .float x

def ofDatum? : Datum → Option Quantity
  | .int n => some (whole n)
  | .float x => some (real x)
  | _ => none

/-- The nearest double, unless that is beyond all doubles. -/
def toFloat (what : String) : Quantity → Except Failure Float
  | whole n => match Decimal.floatOfInt? n with
    | some x => .ok x
    | none => .error (.outOfRange what)
  | real x => .ok x

end Quantity

end InlineImpact
