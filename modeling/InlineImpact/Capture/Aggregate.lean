import InlineImpact.Capture
import InlineImpact.Measurement

/-!
From events to a measurement. The rollovers of each process are put in order of time and summed up
once; an iteration then gets the difference of two of these running totals, found by bisection.
Totals are kept in words of sixty-four bits and wrap around.
-/
namespace InlineImpact.Capture

/-- Signed words go from the negative of this up to below it. -/
def wordLimit : Nat := Nat.pow 2 63

/-- A signed word of sixty-four bits with the value of `n`, up to a multiple of its range. -/
def toWord (n : Int) : Int := n.bmod (2 * wordLimit)

def fitsSigned (n : Int) : Bool := -wordLimit ≤ n && n < wordLimit

def fitsUnsigned (n : Int) : Bool := 0 ≤ n && n < 2 * wordLimit

/-- A double cut to a signed word; what does not fit becomes the least word. -/
def wordOfFloat (x : Float) : Int :=
  match Decimal.truncate? x with
  | some n => if fitsSigned n then n else -wordLimit
  | none => -wordLimit

/-- The counts of one process as signed words. Counts that need an unsigned word keep their bits, but
beside smaller ones all of them go through doubles. -/
def countWords (counts : List Int) : Except Failure (List Int) :=
  if counts.all fitsSigned then .ok counts
  else if !counts.all (fun n => fitsSigned n || fitsUnsigned n) then .error (.outOfRange "count")
  else if counts.any fitsSigned then .ok (counts.map fun n => wordOfFloat (Float.ofInt n))
  else .ok (counts.map toWord)

/-- Running totals, from zero on. -/
def runningTotals (start : Int) : List Int → List Int
  | [] => [start]
  | n :: rest => start :: runningTotals (toWord (start + n)) rest

/-- Times in ascending order, and the running total before each and after the last. -/
structure Timeline where
  times : Array Float
  totals : Array Int

/-- The order of doubles in which the value that is no number comes last. -/
def earlier (x y : Float) : Bool := x < y || (y.isNaN && !x.isNaN)

/-- The first place between `low` and `high` whose time does not satisfy `p`, when those that do
come first. -/
def bisect (p : Float → Bool) (times : Array Float) (low high : Nat) : Nat :=
  if h : low < high then
    let middle := (low + high) / 2
    if p (times.getD middle 0.0) then bisect p times (middle + 1) high
    else bisect p times low middle
  else low
termination_by high - low

def Rollover.le (a b : Rollover) : Bool := a.time < b.time || (a.time == b.time && a.count ≤ b.count)

def Iteration.le (a b : Iteration) : Bool :=
  a.start < b.start || (a.start == b.start &&
    (a.finish < b.finish || (a.finish == b.finish && a.process ≤ b.process)))

def Timeline.ofRollovers (rollovers : List Rollover) (process : Int) : Except Failure Timeline := do
  let own := (rollovers.filter (·.process = process)).mergeSort Rollover.le
  let counts ← countWords (own.map (·.count))
  return ⟨(own.map (·.time)).toArray, (runningTotals 0 counts).toArray⟩

/-- The total of the rollovers from `start` through `finish`. -/
def Timeline.between (t : Timeline) (start finish : Float) : Int :=
  let low := bisect (earlier · start) t.times 0 t.times.size
  let high := bisect (fun x => !earlier finish x) t.times 0 t.times.size
  toWord (t.totals.getD high 0 - t.totals.getD low 0)

/-- The instructions of an iteration, if something was counted in it. -/
def sample? (t : Timeline) (interval : Int) (i : Iteration) : Except Failure (Option Float) :=
  if i.finish ≤ i.start then .ok none
  else
    let total := t.between i.start i.finish
    if total ≤ 0 then .ok none
    else match Decimal.floatOfInt? (total * interval) with
      | some x => .ok (some x)
      | none => .error (.outOfRange "instructions")

/-- The timelines of all processes that have iterations. -/
def timelines (events : Events) : Except Failure (Keyed Int Timeline) :=
  (events.iterations.map (·.process)).eraseDups.mapM fun process => do
    return (process, ← Timeline.ofRollovers events.rollovers process)

def aggregate (events : Events) (interval : Int) : Except Failure Measurement := do
  let lines ← timelines events
  let found ← (events.iterations.mergeSort Iteration.le).mapM fun i =>
    sample? ((lines.get? i.process).getD ⟨#[], #[]⟩) interval i
  return {
    samples := found.filterMap id
    discarded := (found.filter Option.isNone).length
    callCounts := events.calls }

/-- The measurement of a capture file. -/
def load (ws : Workspace) (path : String) (interval : Int) : Except Failure Measurement := do
  aggregate (← readEvents ws path) interval

end InlineImpact.Capture
