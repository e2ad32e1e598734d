import InlineImpact.Exploration.Process
import InlineImpact.Proofs.Benchmark.Failure
import InlineImpact.Proofs.Exploration.Fault
import InlineImpact.Rehearsal

/-!
What goes wrong on the hosts there are. A process either cannot be had, which ends the exploration, or its
run fails; a capture is read or ends the exploration. Neither host lacks forests of its own.
-/
namespace InlineImpact

open Exploration (FailsFatally Fatal Host)
open Exploration.FailsFatally

namespace Capture

theorem failsFatally_toFloat (what : String) (v : Json) : FailsFatally (toFloat what v) := by
  unfold toFloat
  split
  · split
    · exact ok _
    · exact error rfl
  · exact ok _
  · exact ok _
  · split
    · exact ok _
    · exact error rfl
  · exact error rfl

theorem failsFatally_toInt (what : String) (v : Json) : FailsFatally (toInt what v) := by
  unfold toInt
  split
  · exact ok _
  · split
    · exact ok _
    · split
      · exact error rfl
      · exact error rfl
  · exact ok _
  · split
    · exact ok _
    · exact error rfl
  · exact error rfl

theorem failsFatally_required (record : Json) (name : String) : FailsFatally (required record name) := by
  unfold required
  split
  · exact ok _
  · exact error rfl

theorem failsFatally_readRecord (record : Json) : FailsFatally (readRecord record) := by
  have hfloat (name : String) {α : Type} {k : Float → Except Failure α} (hk : ∀ x, FailsFatally (k x)) :
      FailsFatally (required record name >>= fun v => toFloat name v >>= k) :=
    bind (failsFatally_required record name) fun v => bind (failsFatally_toFloat name v) hk
  have hint (name : String) {α : Type} {k : Int → Except Failure α} (hk : ∀ n, FailsFatally (k n)) (v : Json) :
      FailsFatally (toInt name v >>= k) := bind (failsFatally_toInt name v) hk
  unfold readRecord
  split
  · exact map (hfloat "ts" fun _ => hint "pid" (fun _ => hint "count" (fun _ => ok _) _) _)
  · exact map (hfloat "start" fun _ => hfloat "end" fun _ => hint "pid" (fun _ => ok _) _)
  · refine map (bind (failsFatally_required record "method") fun v => ?_)
    split
    · exact error rfl
    · exact bind (failsFatally_required record "count") (hint "count" fun _ => ok _)
  · exact ok _

theorem failsFatally_readLine (line : List Char) : FailsFatally (readLine line) := by
  unfold readLine
  split
  · exact ok _
  · exact error rfl
  · rename_i record _
    have hrecord := failsFatally_readRecord record
    split
    · exact ok _
    · rename_i failure hfailure
      split
      · exact ok _
      · exact error (hrecord failure hfailure)

theorem failsFatally_aggregate (events : Events) (interval : Int) :
    FailsFatally (aggregate events interval) := by
  have hcounts (counts : List Int) : FailsFatally (countWords counts) := by
    unfold countWords
    split
    · exact ok _
    · split
      · exact error rfl
      · split
        · exact ok _
        · exact ok _
  have htimeline (process : Int) : FailsFatally (Timeline.ofRollovers events.rollovers process) :=
    bind (hcounts _) fun _ => ok _
  have hsample (t : Timeline) (i : Iteration) : FailsFatally (sample? t interval i) := by
    unfold sample?
    split
    · exact ok _
    · dsimp only
      split
      · exact ok _
      · split
        · exact ok _
        · exact error rfl
  have hlines : FailsFatally (timelines events) := mapM (fun process => bind (htimeline process) fun _ => ok _) _
  exact bind hlines fun _ => bind (mapM (fun _ => hsample _ _) _) fun _ => ok _

/-- A capture that cannot be read ends the exploration, unless it is found to make a failed run. -/
theorem failsFatally_load (ws : Workspace) (path : String) (interval : Int) :
    FailsFatally (load ws path interval) := by
  have hevents : FailsFatally (readEvents ws path) := by
    refine bind (mapError fun _ => rfl) fun bytes => ?_
    split
    · exact error rfl
    · exact bind (bind (mapM failsFatally_readLine _) fun _ => ok _) fun _ => ok _
  exact bind hevents fun events => failsFatally_aggregate events interval

end Capture

namespace Benchmark

variable (b : Benchmark) (c : Configuration) (s : Settings) (ws : Workspace)

/-- A computation whose failures are failed runs and those that end an exploration. -/
def FailsAsRun {α : Type} (x : Except Failure α) : Prop :=
  ∀ failure, x = .error failure → (∃ fault code, failure = .run fault code) ∨ Fatal failure

/-- A run that does not count either failed or could not be made. -/
theorem failsAsRun_run (launcher : Launcher) (ambient : Keyed String String) (verbose : Bool) :
    FailsAsRun (b.run launcher ambient c s verbose ws).outcome := by
  intro failure h
  rcases b.failsOnly_run c s ambient ws launcher verbose failure h with hmissing | hrun | hunusable
  · cases hmissing
    exact .inr rfl
  · obtain ⟨fault, code⟩ := hrun
    exact .inl ⟨fault, code, rfl⟩
  · cases hunusable <;> exact .inr rfl

end Benchmark

namespace Exploration

theorem processHost_blamesNoForest (launcher : Launcher) (ambient : Keyed String String)
    (facts : Capture.HostFacts) : (processHost launcher ambient facts).BlamesNoForest where
  run settings verbose b c ws _ fault h := by
    rcases b.failsAsRun_run c settings ws launcher ambient verbose _ h with ⟨_, _, heq⟩ | hfatal
    · cases heq
    · cases hfatal
  load path interval ws _ fault h := by cases Capture.failsFatally_load ws path interval _ h

theorem rehearsal_blamesNoForest (plan : Rehearsal.Plan) : plan.host.BlamesNoForest where
  run _ _ b c ws st fault h := by
    replace h : (plan.run b c ws st).1.outcome = .error (.forest fault) := h
    unfold Rehearsal.Plan.run at h
    dsimp only at h
    split at h
    · cases h
    · split at h
      · cases h
      · cases h
  load path interval ws _ fault h := by cases Capture.failsFatally_load ws path interval _ h

end Exploration

end InlineImpact
