import InlineImpact.Benchmark.Run
import InlineImpact.Proofs.Outcome

/-!
How a run of a benchmark fails. An executable that is missing is found out first. After that something that the
run was given may be of no use; else the process could not be started, or did not end as the benchmark expects.
-/
namespace InlineImpact

/-- Something is of no use: a template, a value, or what stands at a place of the files. -/
inductive Failure.Unusable : Failure → Prop
  | template (fault : TemplateFault) : Unusable (.template fault)
  | storage (fault : StorageFault) : Unusable (.storage fault)
  | badValue (what : String) : Unusable (.badValue what)
  | outOfRange (what : String) : Unusable (.outOfRange what)
  | wrongKind (what : String) : Unusable (.wrongKind what)

/-- The run went wrong. -/
inductive Failure.OfRun : Failure → Prop
  | mk (fault : RunFault) (code : Option Int) : OfRun (.run fault code)

/-- An executable is missing. -/
inductive Failure.Missing : Failure → Prop
  | mk (fault : BenchmarkFault) : Missing (.benchmark fault)

theorem Failure.Unusable.not_ofRun {failure : Failure} (h : failure.Unusable) : ¬failure.OfRun := by
  rintro ⟨⟩
  cases h

/-- The run went wrong, or there was none since something is of no use. -/
def Failure.StopsRun (failure : Failure) : Prop := failure.OfRun ∨ failure.Unusable

namespace Benchmark

open Failure (Unusable Missing StopsRun)

variable (b : Benchmark) (c : Configuration) (s : Settings) (ambient : Keyed String String) (ws : Workspace)

theorem missing_of_checkPresent : FailsOnly Missing (b.checkPresent s ws) := by
  unfold checkPresent
  split
  · exact .error ⟨_⟩
  · split
    · exact .error ⟨_⟩
    · exact .ok _

theorem unusable_of_toFloat (what : String) (q : Quantity) : FailsOnly Unusable (q.toFloat what) := by
  unfold Quantity.toFloat
  split
  · split
    · exact .ok _
    · exact .error (.outOfRange _)
  · exact .ok _

theorem unusable_of_iterationsText : FailsOnly Unusable (b.iterationsText s) := by
  have hcount : FailsOnly Unusable (b.iterations s) := by
    unfold iterations
    split
    · exact .ok _
    · refine .bind (unusable_of_toFloat _ _) fun target => ?_
      dsimp only
      split
      · exact .ok _
      · split
        · exact .error (.badValue _)
        · exact .error (.outOfRange _)
  refine .bind hcount fun count => ?_
  split
  · exact .ok _
  · exact .error (.badValue _)

theorem unusable_of_launch : FailsOnly Unusable (b.launch c s ambient ws) := by
  have hcapture : FailsOnly Unusable (b.captureWords c s) := by
    unfold captureWords
    split
    · exact .ok _
    · dsimp only
      split
      · exact .ok _
      · exact .error (.template _)
  have hcommand : FailsOnly Unusable (b.command c s ws.hereText) := .bind hcapture fun _ => .ok _
  have henvironment : FailsOnly Unusable (b.environment c s ws.hereText ambient) :=
    .bind (b.unusable_of_iterationsText s) fun _ => .ok _
  exact .bind hcommand fun _ => .bind henvironment fun _ => .ok _

theorem unusable_of_makeResultsDir : FailsOnly Unusable (makeResultsDir c ws) := by
  unfold makeResultsDir
  split
  · exact .error (.badValue _)
  · exact .mapError .storage

theorem unusable_of_dropCapture : FailsOnly Unusable (b.dropCapture c ws) := by
  unfold dropCapture
  split
  · exact .mapError .storage
  · exact .ok _

theorem unusable_of_checkWords (l : Launch) : FailsOnly Unusable (checkWords l) := by
  unfold checkWords
  split
  · exact .error (.badValue _)
  · exact .ok _

theorem unusable_of_limitSeconds (limit : Yaml) : FailsOnly Unusable (limitSeconds limit) := by
  unfold limitSeconds
  split
  · split
    · exact .ok _
    · exact .error (.outOfRange _)
  · exact .ok _
  · exact .ok _
  · exact .error (.wrongKind _)

theorem stops_of_emptyLog : FailsOnly StopsRun (b.emptyLog c ws) := by
  unfold emptyLog
  split
  · exact .error (.inr (.badValue _))
  · exact .mapError fun fault => .inl ⟨_, _⟩

theorem stops_of_judge (l : Launch) (ending : Ending) : FailsOnly StopsRun (b.judge c s l ending ws) := by
  have hlimit : FailsOnly StopsRun (limitSeconds (b.limit s)) := (unusable_of_limitSeconds _).mono fun _ => .inr
  have hexit (code : Int) : FailsOnly StopsRun (b.judgeExit c s l code ws) := by
    unfold judgeExit
    split
    · split
      · exact .error (.inl ⟨_, _⟩)
      · exact .error (.inr (.badValue _))
    · split
      · exact .error (.inl ⟨_, _⟩)
      · exact .ok _
  cases ending with
  | notStarted error => exact .error (.inl ⟨_, _⟩)
  | timedOut => exact hlimit.bind fun _ => .error (.inl ⟨_, _⟩)
  | exited code => exact hlimit.bind fun _ => hexit code

variable (launcher : Launcher) (verbose : Bool)

/-- What is done with a run from the directory of the results on. -/
def outcomeFrom (made : Workspace) : Except Failure CompletedRun := do
  let l ← b.launch c s ambient made
  let dropped ← b.dropCapture c made
  let before ← b.emptyLog c dropped
  checkWords l
  b.judge c s l (launcher l before).1 (launcher l before).2

/-- Each stage of a run is for what the stages before it leave. -/
theorem run_outcome : (b.run launcher ambient c s verbose ws).outcome =
    (b.checkPresent s ws >>= fun _ => makeResultsDir c ws >>= b.outcomeFrom c s ambient launcher) := by
  unfold run start outcomeFrom
  cases b.checkPresent s ws with
  | error failure => rfl
  | ok _ =>
    cases makeResultsDir c ws with
    | error failure => rfl
    | ok made =>
      dsimp only [bind, Except.bind]
      cases b.launch c s ambient made with
      | error failure => rfl
      | ok l =>
        dsimp only
        cases b.dropCapture c made with
        | error failure => rfl
        | ok dropped =>
          dsimp only
          cases b.emptyLog c dropped with
          | error failure => rfl
          | ok before =>
            dsimp only
            cases checkWords l with
            | error failure => rfl
            | ok _ => rfl

theorem stops_of_outcomeFrom : FailsOnly StopsRun (b.outcomeFrom c s ambient launcher ws) :=
  .bind ((b.unusable_of_launch c s ambient ws).mono fun _ => .inr) fun l =>
    .bind ((b.unusable_of_dropCapture c ws).mono fun _ => .inr) fun dropped =>
      .bind (b.stops_of_emptyLog c dropped) fun _ =>
        .bind ((unusable_of_checkWords l).mono fun _ => .inr) fun _ => b.stops_of_judge c s _ l _

/-- A run that does not count misses an executable, went wrong, or was given something of no use. -/
theorem failsOnly_run : FailsOnly (fun failure => failure.Missing ∨ failure.StopsRun)
    (b.run launcher ambient c s verbose ws).outcome := by
  rw [run_outcome]
  refine .bind ((b.missing_of_checkPresent s ws).mono fun _ => .inl) fun _ => ?_
  exact .bind ((unusable_of_makeResultsDir c ws).mono fun _ h => .inr (.inr h)) fun made =>
    (b.stops_of_outcomeFrom c s ambient made launcher).mono fun _ => .inr

end Benchmark

end InlineImpact
