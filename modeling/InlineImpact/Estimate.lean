import InlineImpact.Failure
import InlineImpact.Measurement
import InlineImpact.Random

/-!
The effect of one decision: how a tree's run differs from the run of the tree without it, and how
often that difference keeps its sign when the iterations of both runs are drawn again.
-/
namespace InlineImpact

inductive Status where
  | measured
  | lowSamples
  | missing
  /-- A status that others gave; nothing here does. -/
  | other (text : String)
  deriving DecidableEq, Repr

def Status.text : Status → String
  | measured => "measured"
  | lowSamples => "low-samples"
  | missing => "missing"
  | other text => text

def Status.ofText (text : String) : Status :=
  ([measured, lowSamples, missing].find? (·.text == text)).getD (other text)

structure Estimate where
  delta : Option Float
  deviation : Option Float
  callDelta : Int
  rootCalls : Int
  confidence : Option Float
  status : Status := .measured

namespace Estimate

/-- The delta for each of `count` calls; zero calls have no effect. -/
def share (delta : Option Float) (count : Int) : Except Failure (Option Float) :=
  match delta with
  | none => .ok none
  | some x =>
    if count = 0 then .ok (some 0.0)
    else match Decimal.floatOfInt? count with
      | some n => .ok (some (x / n))
      | none => .error (.outOfRange "call count")

def perCall (e : Estimate) : Except Failure (Option Float) := share e.delta e.callDelta

def perRootCall (e : Estimate) : Except Failure (Option Float) := share e.delta e.rootCalls

/-- The share of resamplings whose delta has the sign of the observed one. -/
def agreement (child parent : List Float) (resamples seed : Nat) : Float :=
  let observed := Statistics.sign (Statistics.mean child - Statistics.mean parent)
  let (childMeans, g) :=
    (Random.Generator.ofSeed seed).resampledMeans Statistics.mean child.toArray resamples
  let (parentMeans, _) := g.resampledMeans Statistics.mean parent.toArray resamples
  let agreeing := (childMeans.zip parentMeans).countP fun (c, p) =>
    Statistics.sign (c - p) == observed
  Statistics.proportion agreeing resamples

def bootstrapConfidence (child parent : List Float) (resamples seed minSamples : Int) :
    Except Failure Float :=
  if (min child.length parent.length : Int) < max minSamples 1 then
    .error (.tooFewSamples child.length parent.length minSamples)
  else if seed < 0 then .error (.badValue "seed")
  else if resamples < 0 then .error (.badValue "resamples")
  else .ok (agreement child parent resamples.toNat seed.toNat)

/-- The variance of a run's mean; a run without samples counts as one sample. -/
def meanVariance (m : Measurement) : Except Failure Float :=
  match Statistics.square? m.deviation with
  | some v => .ok (v / Float.ofNat (max m.size 1))
  | none => .error (.outOfRange "variance")

def standardError (a b : Measurement) : Except Failure Float := do
  return Float.sqrt ((← meanVariance a) + (← meanVariance b))

/-- The first of two counts, or the second if the first is zero. -/
def orElse (a b : Int) : Int := if a = 0 then b else a

/-- How `child` differs from `parent`. Without enough iterations there is no confidence, and without
any no delta. -/
def ofRuns (child parent : Measurement) (callee root : Option MethodId) (rootCalls : Option Int)
    (resamples minSamples seed : Int) : Except Failure Estimate := do
  let callDelta := child.calls callee - parent.calls callee
  let rootCalls := rootCalls.getD (orElse (child.calls root) (parent.calls root))
  if child.size = 0 ∨ parent.size = 0 then
    return ⟨none, none, callDelta, rootCalls, none, .lowSamples⟩
  let delta := child.mean - parent.mean
  let deviation ← standardError child parent
  match bootstrapConfidence child.samples parent.samples resamples seed minSamples with
  | .ok confidence => return ⟨delta, deviation, callDelta, rootCalls, confidence, .measured⟩
  | .error (.tooFewSamples ..) => return ⟨delta, deviation, callDelta, rootCalls, none, .lowSamples⟩
  | .error e => .error e

end Estimate

/-- The larger of two numbers; the first unless the second is really greater. -/
def larger (a b : Float) : Float := if b > a then b else a

/-- The full tree's run cannot be told from the empty tree's run. -/
def isNoise (threshold sigmas : Float) (empty full : Measurement) : Except Failure Bool := do
  let delta := (full.mean - empty.mean).abs
  let relative := threshold * empty.mean.abs
  let error ← Estimate.standardError empty full
  return delta ≤ larger relative (sigmas * error)

end InlineImpact
