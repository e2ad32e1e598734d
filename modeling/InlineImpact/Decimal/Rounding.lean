import InlineImpact.Decimal.Binary

/-!
Rounding to a fixed number of decimal places. It works on the exact value of the double, and a
quotient half way between two integers goes to the even one.
-/
namespace InlineImpact.Decimal

/-- The integer nearest to `num / den`, ties to even. -/
def roundDiv (num den : Nat) : Nat :=
  let q := num / den
  let twice := 2 * (num % den)
  if twice < den ∨ (twice = den ∧ q % 2 = 0) then q else q + 1

/-- The double nearest to `x` rounded to `places` decimal places. A value that is not finite is kept,
and so is the sign of a zero. -/
def roundTo (places : Nat) (x : Float) : Float :=
  match Binary.ofFloat? x with
  | none => x
  | some b =>
    let (num, den) := b.ratio
    let y := nearest (roundDiv (num * Nat.pow 10 places) den) (-places)
    if b.negative then -y else y

/-- A double rounded to an integer, always with its sign. -/
def signedWhole (x : Float) : String :=
  match Binary.ofFloat? x with
  | some b =>
    let (num, den) := b.ratio
    (if b.negative then "-" else "+") ++ toString (roundDiv num den)
  | none => if x.isNaN then "+nan" else if x < 0.0 then "-inf" else "+inf"

end InlineImpact.Decimal
