import InlineImpact.Proofs.Benchmark.Failure
import InlineImpact.Proofs.Benchmark.Words
import InlineImpact.Suite

/-!
How a run of a benchmark ends. It counts, or an executable is missing and nothing was done, or the run went wrong:
no other end is foreseen. But values of a suite are not looked at before they are used, and a capture is removed
before anything is watched for; so there are runs with other ends, and these are all of them.
-/
namespace InlineImpact.Benchmark

open Failure (OfRun Unusable)
open Template (Piece)

/-- The executable is there, and the runner if one is set. -/
def Present (b : Benchmark) (s : Settings) (ws : Workspace) : Prop :=
  ws.holds b.path = true ∧ (s.runner ≠ "" → ws.holds s.runner = true)

/-- The ends that are foreseen for a run that found some files. -/
inductive Documented (b : Benchmark) (found : Workspace) (trial : Trial CompletedRun) : Prop
  | counts {run : CompletedRun} (outcome : trial.outcome = .ok run) (exitCode : run.exitCode = b.exitCode)
  | failed {fault : RunFault} {code : Option Int} (outcome : trial.outcome = .error (.run fault code))
  | missing {fault : BenchmarkFault} (outcome : trial.outcome = .error (.benchmark fault))
      (untouched : trial.workspace = found) (silent : trial.output = "")

/-- A process is started on `before`. -/
def Starts (b : Benchmark) (c : Configuration) (s : Settings) (ambient : Keyed String String) (found : Workspace)
    (l : Launch) (before : Workspace) : Prop :=
  b.Readies c s ambient found l before ∧ checkWords l = .ok ()

/-- What keeps a run from ending as foreseen. It found some files, `made` are these with the directory of the
results, and `pieces` are those of the template of the capture tool. -/
inductive Obstructed (launcher : Launcher) (ambient : Keyed String String) (b : Benchmark) (c : Configuration)
    (s : Settings) (pieces : List Piece) (found made : Workspace) : Prop
  /-- The command shall have the interval, which has too many digits. -/
  | interval (used : .interval ∈ pieces) (long : Text.isWritable s.pmcInterval = false)
  /-- No number of iterations comes of the target time, as with an expected time that is no number or all too short. -/
  | noCount (timed : ¬b.expectedTime ≤ 0.0) (beyond : ∀ target, s.targetSeconds.toFloat "target time" = .ok target →
      Decimal.ceiling? (target / b.expectedTime) = none)
  /-- The number of iterations has too many digits. -/
  | longCount {count : Int} (counted : b.iterations s = .ok count) (long : Text.isWritable count = false)
  /-- A directory stands where the capture goes. -/
  | directory (there : made.isDirectory (c.eventsFile b.name) = true)
  /-- No path can have the name of the benchmark in it. -/
  | name (null : '\x00' ∈ b.name.toList)
  /-- The files are ready for a process, but no process can have the words of the command. -/
  | word {l : Launch} {before : Workspace} (ready : b.Readies c s ambient found l before)
      (null : '\x00' ∈ s.captureCommand.toList ∨ ∃ arg ∈ b.args, '\x00' ∈ arg.toList)
  /-- A process was started, and its time limit is none. -/
  | limit {l : Launch} {before : Workspace} (started : b.Starts c s ambient found l before)
      (running : ∀ error, (launcher l before).1 ≠ .notStarted error)
      (unusable : ∀ x, limitSeconds (b.limit s) ≠ .ok x)
  /-- A process ended with another exit code than the expected one, which has too many digits. -/
  | exitCode {l : Launch} {before : Workspace} {code : Int} (started : b.Starts c s ambient found l before)
      (ended : (launcher l before).1 = .exited code) (unexpected : code ≠ b.exitCode)
      (long : Text.isWritable b.exitCode = false)

variable {launcher : Launcher} {ambient : Keyed String String} {b : Benchmark} {c : Configuration} {s : Settings}
  {verbose : Bool} {pieces : List Piece} {resultsDir : String} {l : Launch} {ws found made before : Workspace}

section Stages

theorem checkPresent_eq_ok_iff : b.checkPresent s ws = .ok () ↔ b.Present s ws := by
  unfold checkPresent Present
  cases ws.holds b.path <;> cases ws.holds s.runner <;> by_cases hrunner : s.runner = "" <;> simp [hrunner]

theorem exists_iterations_iff : (∃ n, b.iterations s = .ok n) ↔ b.expectedTime ≤ 0.0 ∨
    ∃ target n, s.targetSeconds.toFloat "target time" = .ok target ∧
      Decimal.ceiling? (target / b.expectedTime) = some n := by
  unfold iterations
  split
  · rename_i huntimed
    exact iff_of_true ⟨_, rfl⟩ (.inl huntimed)
  · rename_i htimed
    rw [or_iff_right htimed]
    cases s.targetSeconds.toFloat "target time" with
    | error failure => exact iff_of_false nofun nofun
    | ok target =>
      dsimp only [bind, Except.bind]
      split
      · rename_i n hn
        exact iff_of_true ⟨_, rfl⟩ ⟨target, n, rfl, hn⟩
      · rename_i hnone
        refine iff_of_false nofun ?_
        rintro ⟨_, n, ⟨⟩, hn⟩
        rw [hnone] at hn
        cases hn

theorem exists_captureWords_iff (hcommand : s.captureCommand = Piece.template pieces) :
    (∃ words, b.captureWords c s = .ok words) ↔ (Piece.interval ∈ pieces → Text.isWritable s.pmcInterval = true) := by
  rw [captureWords_of_template hcommand, ← Template.fill_eq_ok_iff pieces]
  cases Template.fill (Piece.values (c.eventsFile b.name).toList s.pmcInterval) (Piece.template pieces) with
  | error fault => exact iff_of_false nofun nofun
  | ok text => exact iff_of_true ⟨_, rfl⟩ ⟨text, rfl⟩

/-- A process can be prepared if its command and its number of iterations can be written. -/
theorem exists_launch_iff (hcommand : s.captureCommand = Piece.template pieces) :
    (∃ l, b.launch c s ambient ws = .ok l) ↔ (Piece.interval ∈ pieces → Text.isWritable s.pmcInterval = true) ∧
      ∃ n, b.iterations s = .ok n ∧ Text.isWritable n = true := by
  rw [← exists_captureWords_iff hcommand]
  unfold launch command environment iterationsText
  cases b.captureWords c s with
  | error failure => exact iff_of_false nofun nofun
  | ok words =>
    cases b.iterations s with
    | error failure => exact iff_of_false nofun nofun
    | ok n =>
      dsimp only [bind, Except.bind]
      cases hn : Text.isWritable n <;> simp [hn, pure, Except.pure]

theorem exists_dropCapture_iff :
    (∃ dropped, b.dropCapture c ws = .ok dropped) ↔ ws.isDirectory (c.eventsFile b.name) = false := by
  unfold dropCapture Workspace.holds Workspace.isDirectory Workspace.entry? Workspace.remove
  cases ws.locate (c.eventsFile b.name) with
  | error e => exact iff_of_true ⟨ws, rfl⟩ rfl
  | ok place =>
    obtain hnone | hdirectory | ⟨content, executable, hfile⟩ : ws.entries.get? place = none ∨
        ws.entries.get? place = some .directory ∨
          ∃ content executable, ws.entries.get? place = some (.file content executable) := by
      rcases ws.entries.get? place with _ | _ | ⟨content, executable⟩ <;> simp
    · simp only [hnone]
      exact iff_of_true ⟨ws, rfl⟩ trivial
    · simp only [hdirectory]
      refine iff_of_false ?_ fun h => Bool.false_ne_true h.symm
      rintro ⟨dropped, h⟩
      cases h
    · simp only [hfile]
      exact iff_of_true ⟨_, rfl⟩ trivial

/-- Where the log cannot be made empty the run went wrong, unless no path can be that of the log. -/
theorem failsOnly_emptyLog_iff : FailsOnly OfRun (b.emptyLog c ws) ↔ '\x00' ∉ (c.logFile b.name).toList := by
  unfold emptyLog
  split
  · rename_i hnull
    exact iff_of_false (fun h => nomatch FailsOnly.error_iff.1 h) (not_not.2 (hasNull_iff.1 hnull))
  · rename_i hnull
    exact iff_of_true (.mapError fun fault => ⟨_, _⟩) (mt hasNull_iff.2 hnull)

theorem failsOnly_judge_iff {ending : Ending} : FailsOnly OfRun (b.judge c s l ending ws) ↔
    (∀ error, ending ≠ .notStarted error) → (∃ x, limitSeconds (b.limit s) = .ok x) ∧
      ∀ code, ending = .exited code → code ≠ b.exitCode → Text.isWritable b.exitCode = true := by
  have hlimit : FailsOnly OfRun (limitSeconds (b.limit s)) ↔ ∃ x, limitSeconds (b.limit s) = .ok x :=
    (unusable_of_limitSeconds _).iff_exists_ok fun _ => Unusable.not_ofRun
  cases ending with
  | notStarted error => exact iff_of_true (.error ⟨_, _⟩) fun h => (h error rfl).elim
  | timedOut =>
    rw [judge, FailsOnly.bind_iff, hlimit]
    constructor
    · exact fun h _ => ⟨h.1, nofun⟩
    · exact fun h => ⟨(h nofun).1, fun _ _ => .error ⟨_, _⟩⟩
  | exited code =>
    have hexit : FailsOnly OfRun (b.judgeExit c s l code ws) ↔
        (code ≠ b.exitCode → Text.isWritable b.exitCode = true) := by
      unfold judgeExit
      split
      · rename_i hne
        cases hwritable : Text.isWritable b.exitCode with
        | true => exact iff_of_true (.error ⟨_, _⟩) fun _ => rfl
        | false => exact iff_of_false (fun h => nomatch FailsOnly.error_iff.1 h) fun h => nomatch h hne
      · rename_i heq
        refine iff_of_true ?_ fun hne => (heq hne).elim
        split
        · exact .error ⟨_, _⟩
        · exact .ok _
    rw [judge, FailsOnly.bind_iff, hlimit]
    constructor
    · rintro ⟨⟨x, hx⟩, h⟩ _
      refine ⟨⟨x, hx⟩, ?_⟩
      rintro _ ⟨⟩
      exact hexit.1 (h x hx)
    · intro h
      obtain ⟨hx, hcode⟩ := h nofun
      exact ⟨hx, fun _ _ => hexit.2 (hcode code rfl)⟩

/-- Each stage has to be passed, and a process that was started has to end as foreseen. -/
theorem failsOnly_outcomeFrom_iff (hmade : makeResultsDir c found = .ok made) :
    FailsOnly OfRun (b.outcomeFrom c s ambient launcher made) ↔ (∃ l, b.launch c s ambient made = .ok l) ∧
      (∃ dropped, b.dropCapture c made = .ok dropped) ∧ '\x00' ∉ (c.logFile b.name).toList ∧
      ∀ l before, b.Readies c s ambient found l before → checkWords l = .ok () ∧
        FailsOnly OfRun (b.judge c s l (launcher l before).1 (launcher l before).2) := by
  have hlaunch := (b.unusable_of_launch c s ambient made).iff_exists_ok fun _ => Unusable.not_ofRun
  have hdrop := (b.unusable_of_dropCapture c made).iff_exists_ok fun _ => Unusable.not_ofRun
  have hwords (l : Launch) := (unusable_of_checkWords l).iff_exists_ok fun _ => Unusable.not_ofRun
  constructor
  · intro h
    obtain ⟨hl, h⟩ := FailsOnly.bind_iff.1 h
    obtain ⟨l, hl⟩ := hlaunch.1 hl
    obtain ⟨hdropped, h⟩ := FailsOnly.bind_iff.1 (h l hl)
    obtain ⟨dropped, hdropped⟩ := hdrop.1 hdropped
    obtain ⟨hemptied, h⟩ := FailsOnly.bind_iff.1 (h dropped hdropped)
    refine ⟨⟨l, hl⟩, ⟨dropped, hdropped⟩, failsOnly_emptyLog_iff.1 hemptied, ?_⟩
    rintro l' before ⟨made', dropped', hmade', hl', hdropped', hbefore⟩
    obtain rfl := Except.ok.inj (hmade.symm.trans hmade')
    obtain rfl := Except.ok.inj (hl.symm.trans hl')
    obtain rfl := Except.ok.inj (hdropped.symm.trans hdropped')
    obtain ⟨hchecked, h⟩ := FailsOnly.bind_iff.1 (h before hbefore)
    obtain ⟨⟨⟩, hchecked⟩ := (hwords l).1 hchecked
    exact ⟨hchecked, h () hchecked⟩
  · rintro ⟨hl, hdropped, hnull, h⟩
    refine FailsOnly.bind_iff.2 ⟨hlaunch.2 hl, fun l hl => ?_⟩
    refine FailsOnly.bind_iff.2 ⟨hdrop.2 hdropped, fun dropped hdropped => ?_⟩
    refine FailsOnly.bind_iff.2 ⟨failsOnly_emptyLog_iff.2 hnull, fun before hbefore => ?_⟩
    obtain ⟨hchecked, hjudge⟩ := h l before ⟨made, dropped, hmade, hl, hdropped, hbefore⟩
    exact FailsOnly.bind_iff.2 ⟨(hwords l).2 ⟨(), hchecked⟩, fun _ _ => hjudge⟩

end Stages

section Ends

theorem not_mem_of_makeResultsDir (h : makeResultsDir c ws = .ok made) : '\x00' ∉ c.resultsDir.toList := by
  unfold makeResultsDir at h
  split at h
  · cases h
  · exact mt hasNull_iff.2 ‹_›

/-- A process that the files are ready for can be started unless the template or an argument has a null character. -/
theorem Readies.checkWords_iff (h : b.Readies c s ambient found l before) (hc : Configuration.Built resultsDir c)
    (hambient : Proper ambient) (hcommand : s.captureCommand = Piece.template pieces)
    (hrunner : '\x00' ∉ s.runner.toList) : checkWords l = .ok () ↔
      ¬('\x00' ∈ s.captureCommand.toList ∨ ∃ arg ∈ b.args, '\x00' ∈ arg.toList) := by
  obtain ⟨made, dropped, hmade, hlaunch, -, hbefore⟩ := h
  obtain ⟨command, hwords, hlaunch⟩ := exists_of_bind_eq_ok hlaunch
  obtain ⟨env, henv, hlaunch⟩ := exists_of_bind_eq_ok hlaunch
  obtain rfl := Except.ok.inj hlaunch
  have hlog : '\x00' ∉ (c.logFile b.name).toList :=
    failsOnly_emptyLog_iff.1 fun failure hfailure => nomatch hbefore.symm.trans hfailure
  have hevents : '\x00' ∉ (c.eventsFile b.name).toList := by
    rwa [Configuration.eventsFile, hc.mem_artifact_iff (not_mem_of_makeResultsDir hmade) _ (by decide),
      ← hc.mem_artifact_iff (not_mem_of_makeResultsDir hmade) b.name (show '\x00' ∉ "err".toList by decide)]
  rw [checkWords_eq_ok_iff (proper_environment hc hambient henv), null_of_command hcommand hevents hrunner hwords]

/-- From the directory of the results on, a run fails as foreseen if nothing keeps it from that. -/
theorem failsOnly_outcomeFrom_iff_not_obstructed (hc : Configuration.Built resultsDir c) (hambient : Proper ambient)
    (hcommand : s.captureCommand = Piece.template pieces) (hrunner : '\x00' ∉ s.runner.toList)
    (hmade : makeResultsDir c found = .ok made) : FailsOnly OfRun (b.outcomeFrom c s ambient launcher made) ↔
      ¬b.Obstructed launcher ambient c s pieces found made := by
  have hlog : '\x00' ∈ (c.logFile b.name).toList ↔ '\x00' ∈ b.name.toList :=
    hc.mem_artifact_iff (not_mem_of_makeResultsDir hmade) b.name (by decide)
  rw [failsOnly_outcomeFrom_iff hmade, exists_launch_iff hcommand, exists_dropCapture_iff, hlog]
  constructor
  · rintro ⟨⟨hinterval, n, hcount, hshort⟩, hdirectory, hname, hprocess⟩ hobstructed
    cases hobstructed with
    | interval used long => simp [hinterval used] at long
    | noCount timed beyond =>
      obtain ⟨target, m, htarget, hm⟩ := (exists_iterations_iff.1 ⟨n, hcount⟩).resolve_left timed
      cases (beyond target htarget).symm.trans hm
    | longCount counted long =>
      obtain rfl := Except.ok.inj (hcount.symm.trans counted)
      simp [hshort] at long
    | directory there => simp [hdirectory] at there
    | name null => exact hname null
    | word ready null =>
      exact (ready.checkWords_iff hc hambient hcommand hrunner).1 (hprocess _ _ ready).1 null
    | limit started running unusable =>
      obtain ⟨⟨x, hx⟩, -⟩ := failsOnly_judge_iff.1 (hprocess _ _ started.1).2 running
      exact unusable x hx
    | exitCode started ended unexpected long =>
      obtain ⟨-, hcode⟩ := failsOnly_judge_iff.1 (hprocess _ _ started.1).2 (by simp [ended])
      simp [hcode _ ended unexpected] at long
  · intro hclear
    -- a stage that cannot be passed is one of the causes
    refine ⟨⟨?interval, ?count⟩, ?directory, ?name, ?process⟩
    case interval =>
      intro used
      by_contra hlong
      exact hclear (.interval used (by simpa using hlong))
    case count =>
      by_cases hcount : ∃ n, b.iterations s = .ok n
      · obtain ⟨n, hn⟩ := hcount
        refine ⟨n, hn, ?_⟩
        by_contra hlong
        exact hclear (.longCount hn (by simpa using hlong))
      · rw [exists_iterations_iff, not_or] at hcount
        refine (hclear (.noCount hcount.1 fun target htarget => ?_)).elim
        exact Option.eq_none_iff_forall_ne_some.2 fun n hn => hcount.2 ⟨target, n, htarget, hn⟩
    case directory =>
      by_contra hthere
      exact hclear (.directory (by simpa using hthere))
    case name => exact fun null => hclear (.name null)
    case process =>
      intro l before hready
      have hwords : checkWords l = .ok () :=
        (hready.checkWords_iff hc hambient hcommand hrunner).2 fun hnull => hclear (.word hready hnull)
      refine ⟨hwords, failsOnly_judge_iff.2 fun running => ⟨?_, fun code ended unexpected => ?_⟩⟩
      · by_contra hnone
        exact hclear (.limit ⟨hready, hwords⟩ running (not_exists.1 hnone))
      · by_contra hlong
        exact hclear (.exitCode ⟨hready, hwords⟩ ended unexpected (by simpa using hlong))

theorem not_mem_of_present (h : b.Present s ws) : '\x00' ∉ s.runner.toList := by
  by_cases hrunner : s.runner = ""
  · simp [hrunner]
  · intro hnull
    have hparts : Workspace.parts s.runner = .error .unnameable := if_pos (by simpa using hnull)
    have hholds := h.2 hrunner
    rw [Workspace.holds, Workspace.entry?, Workspace.locate, hparts] at hholds
    cases hholds

/-- Where nothing is missing a run ends as foreseen if it fails in no other way than by going wrong. -/
theorem documented_iff_failsOnly (hpresent : b.Present s ws) (hmade : makeResultsDir c ws = .ok made) :
    (b.Documented ws (b.run launcher ambient c s verbose ws) ↔
        FailsOnly OfRun (b.outcomeFrom c s ambient launcher made)) ∧
      ∀ fault, (b.run launcher ambient c s verbose ws).outcome ≠ .error (.benchmark fault) := by
  have houtcome : (b.run launcher ambient c s verbose ws).outcome = b.outcomeFrom c s ambient launcher made := by
    rw [run_outcome, checkPresent_eq_ok_iff.2 hpresent, hmade]
    rfl
  have hnever (fault : BenchmarkFault) :
      (b.run launcher ambient c s verbose ws).outcome ≠ .error (.benchmark fault) := by
    intro h
    have hstop : (Failure.benchmark fault).StopsRun :=
      b.stops_of_outcomeFrom c s ambient made launcher _ (houtcome.symm.trans h)
    rcases hstop with h | h <;> cases h
  rw [← houtcome]
  refine ⟨⟨?_, fun h => ?_⟩, hnever⟩
  · rintro (⟨outcome, -⟩ | outcome | ⟨outcome, -, -⟩)
    · exact outcome ▸ .ok _
    · exact outcome ▸ .error ⟨_, _⟩
    · exact (hnever _ outcome).elim
  · cases hrun : (b.run launcher ambient c s verbose ws).outcome with
    | ok run =>
      obtain ⟨before, hcompletes⟩ := run_completes hrun
      exact .counts hrun hcompletes.exitCode
    | error failure =>
      obtain ⟨fault, code⟩ := h failure hrun
      exact .failed hrun

/-- Where something is missing, this is all there is to the run. -/
theorem run_of_not_present (h : ¬b.Present s ws) :
    ∃ fault, b.run launcher ambient c s verbose ws = ⟨.error (.benchmark fault), ws, ""⟩ := by
  cases hchecked : b.checkPresent s ws with
  | ok _ => exact (h (checkPresent_eq_ok_iff.1 hchecked)).elim
  | error failure =>
    obtain ⟨fault⟩ := b.missing_of_checkPresent s ws failure hchecked
    exact ⟨fault, by rw [Benchmark.run, hchecked]⟩

/-- Whatever the launcher does, and for every benchmark and every configuration there is: a run ends as foreseen if
an executable is missing or nothing keeps it from that, and not else. One is found to be missing exactly if it is. -/
theorem run_documented_iff (hc : Configuration.Built resultsDir c) (hambient : Proper ambient)
    (hcommand : s.captureCommand = Piece.template pieces) (hmade : makeResultsDir c ws = .ok made) :
    (b.Documented ws (b.run launcher ambient c s verbose ws) ↔
        (b.Present s ws → ¬b.Obstructed launcher ambient c s pieces ws made)) ∧
      ((∃ fault, (b.run launcher ambient c s verbose ws).outcome = .error (.benchmark fault)) ↔ ¬b.Present s ws) := by
  by_cases hpresent : b.Present s ws
  · obtain ⟨hends, hnever⟩ := documented_iff_failsOnly (b := b) hpresent hmade
    rw [hends, forall_prop_of_true hpresent]
    refine ⟨failsOnly_outcomeFrom_iff_not_obstructed hc hambient hcommand (not_mem_of_present hpresent) hmade, ?_⟩
    exact iff_of_false (fun ⟨fault, h⟩ => hnever fault h) (not_not.2 hpresent)
  · obtain ⟨fault, hrun⟩ := run_of_not_present hpresent
    rw [hrun]
    exact ⟨iff_of_true (.missing rfl rfl rfl) fun h => (hpresent h).elim, iff_of_true ⟨fault, rfl⟩ hpresent⟩

end Ends

section Examples

/-- A benchmark in the root. -/
def plain : Benchmark := { name := "b", path := "/b" }

/-- A benchmark of which it is said that its iterations take a time that is no number. -/
def timeless : Benchmark := { plain with expectedTime := Decimal.nan }

/-- A launcher whose processes end badly. -/
def breaker : Launcher := fun _ ws => (.exited 3, ws)

/-- The root with the benchmark in it, and more. -/
def rootWith (more : Keyed Place Entry) : Workspace :=
  ⟨[], ([], .directory) :: (["b"], .file "".toUTF8 true) :: more⟩

variable {more : Keyed Place Entry}

/-- The benchmark is there, and the directory of the results is the root. -/
theorem found_rootWith (more : Keyed Place Entry) (hpath : b.path = "/b") :
    b.Present {} (rootWith more) ∧
      makeResultsDir (Configuration.standard "/") (rootWith more) = .ok (rootWith more) := by
  have hplace : (rootWith more).locate ("/" ++ "b") = .ok ["b"] :=
    Workspace.locate_rooted rfl "b" (by decide) (by decide) (by decide)
  refine ⟨⟨?_, fun h => (h rfl).elim⟩, ?_⟩
  · rw [hpath, Workspace.holds, Workspace.entry?, show "/b" = "/" ++ "b" from rfl, hplace]
    rfl
  · rw [makeResultsDir, if_neg (by decide), show (Configuration.standard "/").resultsDir = "/" from rfl,
      Workspace.makeDirectories_root rfl]
    rfl

theorem isDirectory_capture (hname : b.name = "b") :
    (rootWith more).isDirectory ((Configuration.standard "/").eventsFile b.name) = true ↔
      (rootWith more).entries.get? ["b-default.events"] = some .directory := by
  have hpath : (Configuration.standard "/").eventsFile "b" = "/" ++ "b-default.events" := by decide +kernel
  have hplace : (rootWith more).locate ("/" ++ "b-default.events") = .ok ["b-default.events"] :=
    Workspace.locate_rooted rfl "b-default.events" (by decide) (by decide) (by decide)
  rw [hname, hpath, Workspace.isDirectory, Workspace.entry?, hplace]
  dsimp only
  split
  · rename_i hentry
    exact iff_of_true rfl hentry
  · rename_i hentry
    exact iff_of_false Bool.false_ne_true hentry

/-- Nothing keeps the benchmark from ending as foreseen. -/
theorem not_obstructed_plain : ¬plain.Obstructed breaker [] (.standard "/") {} [] (rootWith []) (rootWith []) := by
  have hceiling : Decimal.ceiling? (10.0 / plain.expectedTime) = some 10 := by decide +kernel
  have hcount : plain.iterations {} = .ok 10 := by
    rw [iterations, if_neg (by decide +kernel), Quantity.toFloat]
    simp only [bind, Except.bind, hceiling]
    rfl
  have hlimit : (limitSeconds (plain.limit {})).isOk = true := by decide +kernel
  intro hobstructed
  cases hobstructed with
  | interval used => cases used
  | noCount timed beyond => cases (beyond 10.0 rfl).symm.trans hceiling
  | longCount counted long =>
    obtain rfl := Except.ok.inj (hcount.symm.trans counted)
    revert long
    decide
  | directory there => cases (isDirectory_capture rfl).1 there
  | name null =>
    revert null
    decide
  | word ready null =>
    rcases null with null | ⟨arg, harg, -⟩
    · cases null
    · cases harg
  | limit started running unusable =>
    obtain ⟨x, hx⟩ := exists_of_isOk hlimit
    exact unusable x hx
  | exitCode started ended unexpected long =>
    revert long
    decide

theorem proper_nil : Proper [] := List.forall_mem_nil _

/-- Processes that end badly are foreseen, and iterations that take no time are not. -/
theorem run_documented_plain :
    plain.Documented (rootWith []) (plain.run breaker [] (.standard "/") {} false (rootWith [])) ∧
      ¬timeless.Documented (rootWith []) (timeless.run breaker [] (.standard "/") {} false (rootWith [])) := by
  have hmade : makeResultsDir (.standard "/") (rootWith []) = .ok (rootWith []) :=
    (found_rootWith [] (show plain.path = "/b" from rfl)).2
  have hcommand : ({} : Settings).captureCommand = Piece.template [] := rfl
  have hnone : (Decimal.ceiling? (10.0 / timeless.expectedTime)).isNone = true := by decide +kernel
  constructor
  · exact (run_documented_iff .standard proper_nil hcommand hmade).1.2 fun _ => not_obstructed_plain
  · intro h
    refine (run_documented_iff .standard proper_nil hcommand hmade).1.1 h (found_rootWith [] rfl).1 ?_
    refine .noCount (by decide +kernel) ?_
    rintro _ ⟨⟩
    exact Option.isNone_iff_eq_none.1 hnone

/-- A suite entry with a name and a path only. -/
def plainEntry (name path : String) : Yaml := .map [(.text "name", .text name), (.text "path", .text path)]

/-- What an entry does not say is as usual. -/
theorem readEntry_plainEntry (suite : PurePath) (name path : String) :
    Suite.readEntry suite (plainEntry name path) =
      .ok { name := name, path := (suite.parent.join (.ofText path)).text } := by
  have hmentions : ∀ key ∈ ["name", "path"], Suite.mentions key (plainEntry name path) = .ok true := by
    simp only [List.forall_mem_cons]
    exact ⟨rfl, rfl, nofun⟩
  have hfields : Suite.field (plainEntry name path) "name" = .ok (.text name) ∧
      Suite.field (plainEntry name path) "path" = .ok (.text path) := ⟨rfl, rfl⟩
  have hothers : ∀ key ∈ ["expected_time", "exit_code", "args", "timeout"],
      (plainEntry name path).field? key = none := by
    simp only [List.forall_mem_cons]
    exact ⟨rfl, rfl, rfl, rfl, nofun⟩
  simp only [List.forall_mem_cons, List.not_mem_nil, false_imp_iff, implies_true, and_true] at hmentions hothers
  simp only [Suite.readEntry, hmentions, hfields, hothers, Suite.resolve, bind, Except.bind]
  rfl

/-- The suite has one entry, which has a name and a path only. -/
def listsPlain (name path : String) : Yaml → Bool
  | .map [(.text "benchmarks", .list [.map [(.text "name", .text n), (.text "path", .text p)]])] =>
    n == name && p == path
  | _ => false

theorem eq_of_listsPlain {name path : String} {suite : Yaml} (h : listsPlain name path suite = true) :
    suite = .map [(.text "benchmarks", .list [plainEntry name path])] := by
  unfold listsPlain at h
  split at h
  · simpa [plainEntry] using h
  · cases h

def suiteText : String := "benchmarks: [{name: b, path: /b}]"

/-- The root with a suite in it, and with a directory where the capture of its benchmark goes. -/
def blocked : Workspace :=
  rootWith [(["suite"], .file suiteText.toUTF8 false), (["b-default.events"], .directory)]

theorem load_blocked : Suite.load blocked "/suite" [] = .ok [plain] := by
  have hpath : PurePath.ofText "/suite" = ⟨"/", ["suite"]⟩ ∧ PurePath.ofText "/b" = ⟨"/", ["b"]⟩ := by
    constructor
    all_goals
      rw [PurePath.ofText, Text.splitOn_slash]
      decide
  have htext : PurePath.text ⟨"/", ["suite"]⟩ = "/" ++ "suite" := by decide
  have hread : blocked.read ("/" ++ "suite") = .ok suiteText.toUTF8 :=
    Workspace.read_rooted rfl "suite" (by decide) (by decide) (by decide) rfl
  have hplace : blocked.locate ("/" ++ "suite") = .ok ["suite"] :=
    Workspace.locate_rooted rfl "suite" (by decide) (by decide) (by decide)
  have hholds : blocked.holds ("/" ++ "suite") = true := by
    rw [Workspace.holds, Workspace.entry?, hplace]
    rfl
  have hdecode : Workspace.decode? suiteText.toUTF8 = some suiteText.toList := by
    rw [Workspace.decode?, Text.fromUTF8?_toUTF8, Option.map_some, Text.unifyLineEnds_of_not_mem (by decide)]
  have hvalue : Suite.readValue suiteText.toList = .ok (.map [(.text "benchmarks", .list [plainEntry "b" "/b"])]) := by
    have hlists : (Suite.readValue suiteText.toList).toOption.any (listsPlain "b" "/b") = true := by decide +kernel
    cases hread : Suite.readValue suiteText.toList with
    | error failure =>
      rw [hread] at hlists
      cases hlists
    | ok value =>
      rw [hread] at hlists
      rw [eq_of_listsPlain hlists]
  have hentries : Suite.entries (.map [(.text "benchmarks", .list [plainEntry "b" "/b"])]) =
      .ok [plainEntry "b" "/b"] := rfl
  have hentry : Suite.readEntry ⟨"/", ["suite"]⟩ (plainEntry "b" "/b") = .ok plain := by
    rw [readEntry_plainEntry, hpath.2]
    rfl
  simp only [Suite.load, hpath.1, htext, hholds, hread, hdecode, hvalue, hentries, List.mapM_cons, List.mapM_nil,
    hentry, Except.mapError, bind, Except.bind, pure, Except.pure]
  rfl

/-- A benchmark that a suite lists, under what the compiler does on its own: whatever its process would do, the run does
not end as foreseen, since the capture that is to be removed is a directory. -/
theorem exists_undocumented : ∃ b, Suite.load blocked "/suite" [] = .ok [b] ∧ b.Present {} blocked ∧
    makeResultsDir (.standard "/") blocked = .ok blocked ∧ ∀ launcher ambient verbose,
      ¬b.Documented blocked (b.run launcher ambient (.standard "/") {} verbose blocked) := by
  obtain ⟨hpresent, hmade⟩ := found_rootWith
    [(["suite"], .file suiteText.toUTF8 false), (["b-default.events"], .directory)] (show plain.path = "/b" from rfl)
  refine ⟨plain, load_blocked, hpresent, hmade, fun launcher ambient verbose h => ?_⟩
  obtain ⟨-, hdropped, -⟩ := (failsOnly_outcomeFrom_iff hmade).1 ((documented_iff_failsOnly hpresent hmade).1.1 h)
  rw [exists_dropCapture_iff, (isDirectory_capture rfl).2 rfl] at hdropped
  cases hdropped

end Examples

end InlineImpact.Benchmark
