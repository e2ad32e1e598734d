import InlineImpact.Benchmark.Run
import InlineImpact.Proofs.Configuration

/-!
What stands around a process. A run that counts is that of one process, which ended as the benchmark expects.
When it was started its log was empty and there was no capture; so a capture that is read afterwards was
not there before, whatever earlier runs left.
-/
namespace InlineImpact.Benchmark

open Workspace (Appears Contains)

/-- What a process is started with, and on which workspace: the directory of the results is there, the capture
of an earlier run is gone, and the log is empty. -/
def Readies (b : Benchmark) (c : Configuration) (s : Settings) (ambient : Keyed String String)
    (found : Workspace) (l : Launch) (before : Workspace) : Prop :=
  ∃ made dropped, makeResultsDir c found = .ok made ∧ b.launch c s ambient made = .ok l ∧
    b.dropCapture c made = .ok dropped ∧ b.emptyLog c dropped = .ok before

/-- A run that found one workspace started a process on `before`, which left `after` and ended as the benchmark
expects. This process had an empty log, and there was no capture. -/
structure Completes (launcher : Launcher) (ambient : Keyed String String) (b : Benchmark) (c : Configuration)
    (s : Settings) (run : CompletedRun) (found before after : Workspace) : Prop where
  launched : ∃ l, b.Readies c s ambient found l before ∧ l.command = run.command ∧
    launcher l before = (.exited run.exitCode, after)
  exitCode : run.exitCode = b.exitCode
  logFile : run.logFile = c.logFile b.name
  eventsFile : run.eventsFile = c.eventsFile b.name
  emptyLog : before.Contains run.logFile ""
  noCapture : before.holds run.eventsFile = false

variable {launcher : Launcher} {ambient : Keyed String String} {b : Benchmark} {c : Configuration}
  {s : Settings} {verbose : Bool} {l : Launch} {run : CompletedRun} {ws ws' found before after : Workspace}

theorem logFile_of_launch (h : b.launch c s ambient ws = .ok l) : l.logFile = c.logFile b.name := by
  obtain ⟨command, -, h⟩ := exists_of_bind_eq_ok h
  obtain ⟨environment, -, h⟩ := exists_of_bind_eq_ok h
  exact (Except.ok.inj h) ▸ rfl

theorem holds_of_dropCapture (h : b.dropCapture c ws = .ok ws') :
    ws'.holds (c.eventsFile b.name) = false := by
  unfold dropCapture at h
  split at h
  · exact (Workspace.holds_of_remove (mapError_eq_ok.1 h)).2
  · cases h
    exact Bool.eq_false_iff.2 ‹_›

/-- Making the log empty does not bring a capture back. -/
theorem contains_of_emptyLog (h : b.emptyLog c ws = .ok ws') (hgone : ws.holds (c.eventsFile b.name) = false) :
    ws'.Contains (c.logFile b.name) "" ∧ ws'.holds (c.eventsFile b.name) = false := by
  unfold emptyLog at h
  split at h
  · cases h
  · have hwrite : ws.writeText (c.logFile b.name) "" = .ok ws' := mapError_eq_ok.1 h
    have hlog := Workspace.contains_of_write hwrite
    refine ⟨hlog, Workspace.holds_of_write_elsewhere hwrite (fun p hp hevents => ?_) hgone⟩
    have hp := (Workspace.extends_of_write hwrite).locate hp
    rcases c.locate_eventsFile b.name hp with hlong | ⟨place, hplace, hne⟩
    · exact Workspace.locate_ne_of_nameTooLong hlong p hevents
    · exact hne (Except.ok.inj (hevents.symm.trans hplace))

theorem judge_eq_ok {ending : Ending} (h : b.judge c s l ending ws = .ok run) :
    ending = .exited b.exitCode ∧ run = ⟨b.exitCode, l.logFile, c.eventsFile b.name, l.command⟩ := by
  unfold judge at h
  split at h
  · cases h
  · obtain ⟨limit, -, h⟩ := exists_of_bind_eq_ok h
    cases h
  · obtain ⟨limit, -, h⟩ := exists_of_bind_eq_ok h
    unfold judgeExit at h
    split at h
    · split at h <;> cases h
    · split at h
      · cases h
      · obtain rfl := not_not.1 ‹_›
        exact ⟨rfl, (Except.ok.inj h).symm⟩

/-- A launch that counts started one process and changed nothing after it. -/
theorem start_eq_ok (h : (b.start launcher c s verbose l ws).outcome = .ok run) :
    ∃ dropped before, b.dropCapture c ws = .ok dropped ∧ b.emptyLog c dropped = .ok before ∧
      launcher l before = (.exited b.exitCode, (b.start launcher c s verbose l ws).workspace) ∧
      run = ⟨b.exitCode, l.logFile, c.eventsFile b.name, l.command⟩ := by
  unfold start at h ⊢
  dsimp only at h ⊢
  split at h
  · cases h
  · rename_i dropped hdropped
    split at h
    · cases h
    · rename_i before hbefore
      split at h
      · cases h
      · obtain ⟨hending, hrun⟩ := judge_eq_ok h
        exact ⟨dropped, before, hdropped, hbefore, Prod.ext hending rfl, hrun⟩

/-- Whatever a run finds, if it counts then its process had an empty log, and there was no capture. -/
theorem run_completes (h : (b.run launcher ambient c s verbose ws).outcome = .ok run) :
    ∃ before, b.Completes launcher ambient c s run ws before (b.run launcher ambient c s verbose ws).workspace := by
  unfold Benchmark.run at h ⊢
  split at h
  · cases h
  · split at h
    · cases h
    · rename_i made hmade
      split at h
      · cases h
      · rename_i l hlaunch
        obtain ⟨dropped, before, hdropped, hbefore, hlauncher, rfl⟩ := start_eq_ok h
        obtain ⟨hlog, hgone⟩ := contains_of_emptyLog hbefore (holds_of_dropCapture hdropped)
        have hfile := logFile_of_launch hlaunch
        exact ⟨before, ⟨l, ⟨made, dropped, hmade, hlaunch, hdropped, hbefore⟩, rfl, hlauncher⟩, rfl, hfile, rfl,
          hfile ▸ hlog, hgone⟩

/-- A capture that can be read after the run has come into being while the process ran. -/
theorem Completes.appears (h : b.Completes launcher ambient c s run found before after)
    (hhere : after.here = before.here) {bytes : ByteArray} (hread : after.read run.eventsFile = .ok bytes) :
    Appears run.eventsFile before after := by
  obtain ⟨place, executable, hafter, hentry⟩ := Workspace.exists_place_of_read hread
  obtain ⟨logPlace, _, hlog, -⟩ := h.emptyLog
  have hgone := h.noCapture
  rw [h.logFile] at hlog
  rw [h.eventsFile] at hafter hgone
  rcases c.locate_eventsFile b.name hlog with hlong | ⟨place', hbefore, -⟩
  · exact (Workspace.locate_ne_of_nameTooLong hlong place hafter).elim
  · obtain rfl := Workspace.locate_unique hbefore hafter hhere
    rw [Appears, h.eventsFile]
    exact ⟨place, bytes, executable, hbefore,
      Workspace.holds_eq_false_iff.1 hgone place hbefore, hafter, hentry⟩

end InlineImpact.Benchmark
