/-!
A reproducible source of random indices. A seed is spread over four words of a pool, the pool over
the 128-bit state of a linear generator, and the state's high bits give words of thirty-two bits.
-/
namespace InlineImpact.Random

/-- One word mixed with a running constant, and the next constant. -/
def stir (multiplier constant value : UInt32) : UInt32 × UInt32 :=
  let next := constant * multiplier
  let v := (value ^^^ constant) * next
  (v ^^^ (v >>> 16), next)

def mix (x y : UInt32) : UInt32 :=
  let r := 0xca01f9dd * x - 0x4973f715 * y
  r ^^^ (r >>> 16)

/-- The words of a natural, the lowest first; zero is one word. At most `fuel` words are taken. -/
def words : (fuel : Nat) → Nat → List UInt32
  | 0, _ => []
  | fuel + 1, n =>
    if n < Nat.pow 2 32 then [UInt32.ofNat n]
    else UInt32.ofNat (n % Nat.pow 2 32) :: words fuel (n / Nat.pow 2 32)

/-- The pool while it takes in the words of a seed, and the running constant. -/
structure Pool where
  slots : List UInt32
  constant : UInt32

namespace Pool

def multiplier : UInt32 := 0x931e8875

/-- Adds a slot with the next word of the seed. -/
def fill (p : Pool) (word : UInt32) : Pool :=
  let (v, constant) := stir multiplier p.constant word
  ⟨p.slots ++ [v], constant⟩

/-- Mixes a word into one slot. -/
def absorb (word : UInt32) (p : Pool) (slot : Nat) : Pool :=
  let (v, constant) := stir multiplier p.constant word
  ⟨p.slots.modify slot (mix · v), constant⟩

/-- Mixes one slot into the three others. -/
def spread (p : Pool) (source : Nat) : Pool :=
  ((List.range 4).filter (· ≠ source)).foldl (fun p slot => p.absorb (p.slots.getD source 0) slot) p

def ofSeed (seed : Nat) : Pool :=
  let entropy := words (seed.log2 / 32 + 1) seed
  let filled := (List.range 4).foldl (fun p i => p.fill (entropy.getD i 0)) ⟨[], 0x43b0d7e5⟩
  let mixed := (List.range 4).foldl spread filled
  (entropy.drop 4).foldl (fun p word => (List.range 4).foldl (absorb word) p) mixed

/-- The words that a pool gives, slot after slot. -/
def output (p : Pool) : (count : Nat) → List UInt32 :=
  fun count => (go p (List.range count) 0x8b51f9dd)
where
  go (p : Pool) : List Nat → UInt32 → List UInt32
    | [], _ => []
    | i :: rest, constant =>
      let (v, next) := stir 0x58f38ded constant (p.slots.getD (i % 4) 0)
      v :: go p rest next

end Pool

structure Generator where
  state : Nat
  increment : Nat
  /-- The half of the last word that has not been used. -/
  held : Option Nat

namespace Generator

def advance (state increment : Nat) : Nat :=
  (state * 0x2360ed051fc65da44385df649fccf645 + increment) % Nat.pow 2 128

/-- The number that words make, the highest one of each pair second and the first pair highest. -/
def joinPairs : List UInt32 → Nat → Nat
  | low :: high :: rest, n => joinPairs rest (n * Nat.pow 2 64 + high.toNat * Nat.pow 2 32 + low.toNat)
  | _, n => n

def ofSeed (seed : Nat) : Generator :=
  let ws := (Pool.ofSeed seed).output 8
  let initial := joinPairs (ws.take 4) 0
  let increment := (joinPairs (ws.drop 4) 0 * 2 + 1) % Nat.pow 2 128
  ⟨advance ((advance 0 increment + initial) % Nat.pow 2 128) increment, increment, none⟩

def rotateRight (x n : Nat) : Nat := (x >>> n ||| x <<< (64 - n)) % Nat.pow 2 64

/-- The next word of thirty-two bits. -/
def next (g : Generator) : Nat × Generator :=
  match g.held with
  | some word => (word, { g with held := none })
  | none =>
    let state := advance g.state g.increment
    let word := rotateRight ((state >>> 64) ^^^ (state % Nat.pow 2 64)) (state >>> 122)
    (word % Nat.pow 2 32, { g with state, held := some (word >>> 32) })

/-- An index below `n`, every one as likely. Words that would favour some are drawn again, but not
more than `fuel` times. -/
def drawBelow (n : Nat) : (fuel : Nat) → Generator → Nat × Generator
  | 0, g =>
    let (word, g) := g.next
    ((word * n) >>> 32, g)
  | fuel + 1, g =>
    let (word, g) := g.next
    let product := word * n
    if product % Nat.pow 2 32 < (Nat.pow 2 32 - n) % n then drawBelow n fuel g else (product >>> 32, g)

/-- An index below `n`; there is nothing to draw if only one is possible. -/
def below (n : Nat) (g : Generator) : Nat × Generator :=
  if n = 1 then (0, g) else drawBelow n 128 g

/-- Samples drawn with replacement, as many as there are. -/
def resample (samples : Array Float) : (count : Nat) → Generator → List Float × Generator
  | 0, g => ([], g)
  | count + 1, g =>
    let (i, g) := below samples.size g
    let (xs, g) := resample samples count g
    (samples.getD i 0.0 :: xs, g)

/-- The means of `rows` resamplings, one after the other. -/
def resampledMeans (mean : List Float → Float) (samples : Array Float) :
    (rows : Nat) → Generator → List Float × Generator
  | 0, g => ([], g)
  | rows + 1, g =>
    let (xs, g) := resample samples samples.size g
    let (ms, g) := resampledMeans mean samples rows g
    (mean xs :: ms, g)

end Generator

end InlineImpact.Random
