import InlineImpact.Decimal.Binary

/-!
The decimal text of a double: the fewest digits that read back as the same double, and of those the
digits nearest to its exact value.
-/
namespace InlineImpact.Decimal

/-- An interval of reals over a common denominator, with one point of it. -/
structure Interval where
  low : Nat
  point : Nat
  high : Nat
  scale : Nat
  /-- The ends belong to the interval. -/
  closed : Bool

/-- The reals that round to a double with this mantissa and exponent. Below a power of two the next
double is only half as far away. -/
def Interval.ofBinary (b : Binary) : Interval :=
  let below := if b.mantissa = Nat.pow 2 52 ∧ -1074 < b.exponent then 1 else 2
  let up := (b.exponent - 2).toNat
  { low := (4 * b.mantissa - below) * Nat.pow 2 up
    point := 4 * b.mantissa * Nat.pow 2 up
    high := (4 * b.mantissa + 2) * Nat.pow 2 up
    scale := Nat.pow 2 (2 - b.exponent).toNat
    closed := b.mantissa % 2 = 0 }

/-- The interval in units of `10 ^ k`. -/
def Interval.inUnits (i : Interval) (k : Int) : Interval :=
  let shrink := Nat.pow 10 (-k).toNat
  { i with
    low := i.low * shrink, point := i.point * shrink, high := i.high * shrink
    scale := i.scale * Nat.pow 10 k.toNat }

def Interval.holds (i : Interval) (n : Nat) : Bool :=
  if i.closed then i.low ≤ n * i.scale && n * i.scale ≤ i.high
  else i.low < n * i.scale && n * i.scale < i.high

/-- The integer of the interval next to its point, a tie going to the even one. -/
def Interval.integer? (i : Interval) : Option Nat :=
  let n := i.point / i.scale
  let excess := 2 * (i.point % i.scale)
  match i.holds n, i.holds (n + 1) with
  | true, true =>
    some (if excess < i.scale ∨ (excess = i.scale ∧ n % 2 = 0) then n else n + 1)
  | true, false => some n
  | false, true => some (n + 1)
  | false, false => none

/-- The exponent of the leading decimal digit of the point. -/
def Interval.magnitude (i : Interval) : Int :=
  let guess : Int := ((i.point.log2 : Int) - i.scale.log2) * 30103 / 100000
  let reaches (k : Int) : Bool :=
    i.scale * Nat.pow 10 k.toNat ≤ i.point * Nat.pow 10 (-k).toNat
  if reaches (guess + 1) then guess + 1 else if reaches guess then guess else guess - 1

/-- Looks for an integer of the interval in ever finer units, at most `fuel` of them. -/
def Interval.search (i : Interval) : Nat → Int → Nat × Int
  | 0, k => (i.point / i.scale, k)
  | fuel + 1, k =>
    match (i.inUnits k).integer? with
    | some n => (n, k)
    | none => i.search fuel (k - 1)

/-- Digits and a power of ten for a positive finite double; seventeen digits are always enough. -/
def shortest (b : Binary) : Nat × Int :=
  let i := Interval.ofBinary b
  i.search 18 i.magnitude

/-- How digits and exponent are laid out. -/
structure Layout where
  /-- The least exponent of the leading digit that is written without an exponent. -/
  positionalFrom : Int
  /-- The least exponent beyond those. -/
  positionalBelow : Int
  /-- The least number of digits of a written exponent. -/
  exponentWidth : Nat

/-- Doubles are written positionally from one ten-thousandth up to below ten to the sixteenth, and
otherwise with an exponent of at least two digits. -/
def plainLayout : Layout := ⟨-4, 16, 2⟩

def zeroes (n : Nat) : List Char := List.replicate n '0'

/-- Drops the zeros at the end of a digit string, but keeps one digit. -/
def dropTrailingZeros (ds : List Char) : List Char :=
  match (ds.reverse.dropWhile (· == '0')).reverse with
  | [] => ['0']
  | kept => kept

/-- The digits with the point after the first `places` of them. -/
def pointAt (ds : List Char) (places : Int) : List Char :=
  if places ≤ 0 then '0' :: '.' :: (zeroes (-places).toNat ++ ds)
  else
    let k := places.toNat
    let whole := ds.take k ++ zeroes (k - ds.length)
    let fraction := ds.drop k
    whole ++ '.' :: (if fraction.isEmpty then ['0'] else fraction)

def exponentText (layout : Layout) (e : Int) : List Char :=
  let ds := (toString e.natAbs).toList
  'e' :: (if e < 0 then '-' else '+') :: (zeroes (layout.exponentWidth - ds.length) ++ ds)

def Layout.positive (layout : Layout) (n : Nat) (k : Int) : List Char :=
  let all := (toString n).toList
  let ds := dropTrailingZeros all
  let e : Int := all.length - 1 + k
  if layout.positionalFrom ≤ e ∧ e < layout.positionalBelow then pointAt ds (e + 1)
  else
    (match ds with
      | [d] => [d]
      | d :: rest => d :: '.' :: rest
      | [] => []) ++ exponentText layout e

/-- The text of a double. -/
def Layout.text (layout : Layout) (x : Float) : String :=
  match Binary.ofFloat? x with
  | none => if x.isNaN then "nan" else if x < 0.0 then "-inf" else "inf"
  | some b =>
    let body :=
      if b.mantissa = 0 then ['0', '.', '0']
      else
        let (n, k) := shortest b
        layout.positive n k
    String.ofList (if b.negative then '-' :: body else body)

def text (x : Float) : String := plainLayout.text x

end InlineImpact.Decimal
