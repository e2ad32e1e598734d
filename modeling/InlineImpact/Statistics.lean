/-!
Sums, means and deviations of samples in floating point. The order of the additions is part of the
result: long sequences are halved, middle ones are added in eight lanes, short ones in order.
-/
namespace InlineImpact.Statistics

/-- Adds the samples to `start` in order. -/
def addTo (start : Float) (xs : List Float) : Float := xs.foldl (· + ·) start

/-- The lanes in pairs, the pairs in pairs. -/
def joinLanes : List Float → Float
  | [a, b, c, d, e, f, g, h] => ((a + b) + (c + d)) + ((e + f) + (g + h))
  | xs => addTo (-0.0) xs

/-- Adds full blocks of eight to the lanes, and what is left to the joined lanes. -/
def addBlocks (lanes : List Float) : (fuel : Nat) → List Float → Float
  | 0, xs => addTo (joinLanes lanes) xs
  | fuel + 1, xs =>
    if xs.length < 8 then addTo (joinLanes lanes) xs
    else addBlocks (List.zipWith (· + ·) lanes (xs.take 8)) fuel (xs.drop 8)

/-- Half of `n`, rounded down to full blocks. -/
def split (n : Nat) : Nat := n / 2 - n / 2 % 8

/-- The sum of the samples by halving. -/
def pairwiseSum (xs : List Float) : Float :=
  if xs.length < 8 then addTo (-0.0) xs
  else if xs.length ≤ 128 then addBlocks (xs.take 8) xs.length (xs.drop 8)
  else pairwiseSum (xs.take (split xs.length)) + pairwiseSum (xs.drop (split xs.length))
termination_by xs.length
decreasing_by
  all_goals simp [split]; omega

def mean (xs : List Float) : Float := (0.0 + pairwiseSum xs) / Float.ofNat xs.length

/-- The standard deviation of a sample, with one degree of freedom taken off. -/
def deviation (xs : List Float) : Float :=
  let m := mean xs
  let squares := xs.map fun x => (x - m) * (x - m)
  Float.sqrt ((0.0 + pairwiseSum squares) / Float.ofNat (xs.length - 1))

/-- The share that some are of all. It is the same for twice as many of twice as many, so it is taken of
their smallest ratio. -/
def proportion (part whole : Nat) : Float :=
  let unit := Nat.gcd part whole
  Float.ofNat (part / unit) / Float.ofNat (whole / unit)

/-- The square of a finite number, unless it is too large. That of a zero has no sign. -/
def square? (x : Float) : Option Float :=
  if x == 0.0 then some 0.0
  else if x.isFinite && !(x * x).isFinite then none
  else some (Float.pow x 2.0)

/-- Minus one, zero or one with the sign of a number; no number has no sign. -/
def sign (x : Float) : Float := if x > 0.0 then 1.0 else if x < 0.0 then -1.0 else if x == 0.0 then 0.0 else x

end InlineImpact.Statistics
