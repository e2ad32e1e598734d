/-!
Doubles as exact binary numbers: a finite double is a sign, a whole mantissa and a power of two, and
a decimal numeral stands for the double nearest to it.
-/
namespace InlineImpact.Decimal

/-- The number `±mantissa * 2 ^ exponent`. -/
structure Binary where
  negative : Bool
  mantissa : Nat
  exponent : Int
  deriving DecidableEq, Repr

/-- The exact value of a finite double. -/
def Binary.ofFloat? (x : Float) : Option Binary :=
  let bits := x.toBits.toNat
  let fraction : Nat := bits % Nat.pow 2 52
  let scale : Nat := bits / Nat.pow 2 52 % 2048
  let negative := bits / Nat.pow 2 63 == 1
  if scale = 2047 then none
  else if scale = 0 then some ⟨negative, fraction, -1074⟩
  else some ⟨negative, Nat.pow 2 52 + fraction, (scale : Int) - 1075⟩

/-- The absolute value as a quotient of naturals. -/
def Binary.ratio (b : Binary) : Nat × Nat :=
  if 0 ≤ b.exponent then (b.mantissa * Nat.pow 2 b.exponent.toNat, 1)
  else (b.mantissa, Nat.pow 2 (-b.exponent).toNat)

def infinity : Float := Float.ofBits 0x7FF0000000000000

def nan : Float := Float.ofBits 0x7FF8000000000000

/-- The double nearest to `m * 10 ^ e`, ties to the even mantissa. Powers beyond the range of doubles
are not computed. -/
def nearest (m : Nat) (e : Int) : Float :=
  if m = 0 ∨ e + m.log2 + 1 < -400 then 0.0
  else if 400 < e then infinity
  else Float.ofScientific m (e < 0) e.natAbs

/-- The double nearest to an integer, if that is finite. -/
def floatOfInt? (n : Int) : Option Float :=
  let x := Float.ofInt n
  if x.isFinite then some x else none

/-- The integer part of a finite double. -/
def truncate? (x : Float) : Option Int :=
  (Binary.ofFloat? x).map fun b =>
    let (num, den) := b.ratio
    if b.negative then -((num / den : Nat) : Int) else (num / den : Nat)

/-- The least integer that is not below a finite double. -/
def ceiling? (x : Float) : Option Int :=
  (Binary.ofFloat? x).map fun b =>
    let (num, den) := b.ratio
    if b.negative then -((num / den : Nat) : Int) else ((num + den - 1) / den : Nat)

end InlineImpact.Decimal
