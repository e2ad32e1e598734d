import InlineImpact.Decimal.Shortest

/-!
Values of no fixed type: what the compiler reports at a call site, and the cells of a table.
-/
namespace InlineImpact

inductive Datum where
  | int (n : Int)
  | float (x : Float)
  | text (s : String)
  | bool (b : Bool)
  | none

namespace Datum

/-- The value as the text of a cell; no value leaves the cell empty. -/
def cell : Datum → String
  | int n => toString n
  | float x => Decimal.text x
  | text s => s
  | bool b => if b then "True" else "False"
  | none => ""

/-- The value as the text of a setting. -/
def settingText : Datum → String
  | none => "None"
  | d => d.cell

end Datum

end InlineImpact
