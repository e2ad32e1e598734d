import InlineImpact.Exploration.Process
import InlineImpact.Proofs.Benchmark
import InlineImpact.Proofs.Exploration.Journal
import InlineImpact.Proofs.Text.Utf8

/-!
Where the measurement of a run comes from. However many attempts failed before, and whatever they or
earlier runs left behind, it is read from a capture that the process of the last attempt made.
-/
namespace InlineImpact.Exploration

open Workspace (Appears)

variable {W : Type}

/-- A host that starts every benchmark as a process and reads the captures there are. The launcher may
behave in another way in every state of the host; but no process moves the place that paths start from. -/
structure Host.StartsProcesses (host : Host W) (launcher : W → Launcher) (ambient : Keyed String String) :
    Prop where
  run : ∀ settings verbose b c ws w,
    (host.run settings verbose b c ws w).1 = b.run (launcher w) ambient c settings verbose ws
  load : ∀ path interval ws w, (host.load path interval ws w).1 = Capture.load ws path interval
  here : ∀ w l ws, (launcher w l ws).2.here = ws.here

theorem processHost_startsProcesses {launcher : Launcher} (hhere : ∀ l ws, (launcher l ws).2.here = ws.here)
    (ambient : Keyed String String) (facts : Capture.HostFacts) :
    (processHost launcher ambient facts).StartsProcesses (fun _ => launcher) ambient where
  run _ _ _ _ _ _ := rfl
  load _ _ _ _ := rfl
  here _ := hhere

namespace Explorer

variable {e : Explorer W} {launcher : W → Launcher} {ambient : Keyed String String} {b : Benchmark}
  {c : Configuration} {s s' : Session W} {r : CompletedRun × Measurement} {run : CompletedRun} {m : Measurement}

/-- An attempt that counts reads the capture in the files that its run left. -/
theorem attempt_yields_read (e : Explorer W) (b : Benchmark) (c : Configuration) (s : Session W) :
    let ran := e.host.run e.settings e.veryVerbose b c s.workspace s.world
    (e.attempt b c).Yields s (fun r t => ran.1.outcome = .ok r.1 ∧ t.workspace = ran.1.workspace ∧
      (e.host.load r.1.eventsFile e.settings.pmcInterval ran.1.workspace ran.2).1 = .ok r.2) fun _ _ => True := by
  intro ran
  have hlaunch : (e.launch b c).Yields s (fun run t => ran.1.outcome = .ok run ∧
      t.workspace = ran.1.workspace ∧ t.world = ran.2) fun _ _ => True := by
    refine ⟨fun run t h => ?_, fun _ _ _ => trivial⟩
    obtain ⟨hout, rfl⟩ := Prod.mk.inj h
    exact ⟨hout, rfl, rfl⟩
  refine hlaunch.bind fun run t ⟨hout, hworkspace, hworld⟩ => ?_
  have hload : (e.load run.eventsFile).Yields t (fun m u => u.workspace = t.workspace ∧
      (e.host.load run.eventsFile e.settings.pmcInterval t.workspace t.world).1 = .ok m) fun _ _ => True := by
    refine ⟨fun m u h => ?_, fun _ _ _ => trivial⟩
    obtain ⟨hout, rfl⟩ := Prod.mk.inj h
    exact ⟨rfl, hout⟩
  rw [hworkspace, hworld] at hload
  refine hload.caught_bind (fun m u ⟨hu, hm⟩ => .pure ⟨hout, hu, hm⟩) fun failure u _ => ?_
  dsimp only
  split
  · exact .throw trivial
  · exact .throw trivial

/-- The session `u` is what failed attempts make of a session. After each of them an abort is asked for, and
none is requested; the next attempt finds the files as the last one left them. -/
inductive Retried (e : Explorer W) (b : Benchmark) (c : Configuration) (u : Session W) : Session W → Prop where
  | here : Retried e b c u u
  | again {s t t' fault code} (hfailed : (e.attempt b c).on s = (.error (.run fault code), t))
    (hpoll : e.host.poll t.world = (false, t'.world)) (hfiles : t'.workspace = t.workspace)
    (hadds : t.Adds [.polled false] t') (hrest : Retried e b c u t') : Retried e b c u s

/-- Attempts that come to a result end with one that counts, however many failed before it. By induction on
the retries that are left. -/
theorem exists_retried {number left : Nat} (h : (e.attempts b c number left).on s = (.ok r, s')) :
    ∃ u, Retried e b c u s ∧ (e.attempt b c).on u = (.ok r, s') := by
  induction left using Nat.strongRecOn generalizing number s with
  | ind left ih =>
    obtain ⟨next, t, hretrial, hnext⟩ := e.attempts_retrial b c number left s
    rw [hnext] at h
    cases hretrial with
    | counted hattempt =>
      cases h
      exact ⟨s, .here, hattempt⟩
    | broken | exhausted | stopped => cases h
    | again hattempt hsay hpoll hnote =>
      obtain ⟨u, hretried, hu⟩ := ih _ (Nat.lt_succ_self _) h
      have hadds := ((Session.Adds.of_say hsay).trans (.of_poll hpoll)).trans (.of_say hnote)
      obtain rfl := Exploring.eq_of_say hsay
      have hw := Exploring.eq_of_say hnote
      obtain ⟨hanswer, hv⟩ := Prod.mk.inj hpoll
      refine ⟨u, .again hattempt (Prod.ext (Except.ok.inj hanswer) ?_) ?_ (by simpa using hadds) hretried, hu⟩
      · rw [hw, ← hv]
        rfl
      · rw [hw, ← hv]
        rfl

/-- However many attempts fail and whatever they or anything before them left behind: if a run comes to a
measurement, then the process of its last attempt ended as the benchmark expects, and the measurement is read
from a capture that has come into being while this process ran. Its log was empty when it was started. -/
theorem run_fresh (hhost : e.host.StartsProcesses launcher ambient)
    (h : (e.run b c).on s = (.ok (run, m), s')) :
    ∃ u before, Retried e b c u s ∧ u.Adds [.ran b c (.ok run), .loaded (.ok m)] s' ∧
      b.Completes (launcher u.world) ambient c e.settings run u.workspace before s'.workspace ∧
      Appears run.eventsFile before s'.workspace ∧
      Capture.load s'.workspace run.eventsFile e.settings.pmcInterval = .ok m := by
  have hattempts : (e.attempts b c 1 e.settings.maxRetries.toNat).on s = (.ok (run, m), s') := by
    unfold Explorer.run at h
    split at h
    · cases h
    · exact h
  obtain ⟨u, hretried, hu⟩ := exists_retried hattempts
  obtain ⟨J, hattempt, hadds⟩ := e.attempt_spec hu
  cases hattempt
  obtain ⟨hout, hworkspace, hload⟩ := (e.attempt_yields_read b c u).ok _ _ hu
  rw [hhost.load, ← hworkspace] at hload
  rw [hhost.run] at hout hworkspace
  obtain ⟨before, hcompletes⟩ := Benchmark.run_completes hout
  rw [← hworkspace] at hcompletes
  obtain ⟨events, hevents, -⟩ := exists_of_bind_eq_ok hload
  obtain ⟨bytes, hbytes, -⟩ := exists_of_bind_eq_ok hevents
  have hhere : s'.workspace.here = before.here := by
    obtain ⟨l, -, -, hl⟩ := hcompletes.launched
    have hsame := hhost.here u.world l before
    rwa [hl] at hsame
  exact ⟨u, before, hretried, hadds, hcompletes, hcompletes.appears hhere (mapError_eq_ok.1 hbytes), hload⟩

end Explorer

section Recorded

/-- A benchmark in the root that does not say how long an iteration takes. -/
def brief : Benchmark := { name := "brief", path := "/brief", expectedTime := 0.0 }

/-- A configuration that has its artifacts in the root. -/
def rooted : Configuration := ⟨"plain", [], "/"⟩

/-- The root with some files in it. -/
def rootFiles (files : List (String × String)) : Workspace :=
  ⟨[], ([], .directory) :: files.map fun (name, text) => ([name], .file text.toUTF8 true)⟩

/-- A launcher whose processes make a capture without records and end well. -/
def recorder : Launcher := fun _ ws =>
  (.exited 100, { ws with entries := ws.entries.put ["brief-plain.events"] (.file "".toUTF8 false) })

theorem locate_rootFiles (files : List (String × String)) (name : String) (hslash : '/' ∉ name.toList)
    (hnull : '\x00' ∉ name.toList) (hshort : name.utf8ByteSize ≤ Workspace.maxNameBytes) :
    (rootFiles files).locate ("/" ++ name) = .ok (Workspace.next [] name) :=
  Workspace.locate_rooted rfl name hslash hnull hshort

/-- Nothing is missing, and the directory of the results is there. -/
theorem found_brief (files : List (String × String)) :
    brief.checkPresent {} (rootFiles (("brief", "") :: files)) = .ok () ∧
      Benchmark.makeResultsDir rooted (rootFiles (("brief", "") :: files)) =
        .ok (rootFiles (("brief", "") :: files)) := by
  have hholds : (rootFiles (("brief", "") :: files)).holds ("/" ++ "brief") = true := by
    rw [Workspace.holds, Workspace.entry?, locate_rootFiles _ _ (by decide) (by decide) (by decide)]
    rfl
  constructor
  · rw [Benchmark.checkPresent, show brief.path = "/" ++ "brief" from rfl, hholds]
    rfl
  · rw [Benchmark.makeResultsDir, if_neg (by decide), show rooted.resultsDir = "/" from rfl,
      Workspace.makeDirectories_root rfl]
    rfl

theorem exists_launch_brief (ws : Workspace) :
    ∃ l, brief.launch rooted {} [] ws = .ok l ∧ Benchmark.checkWords l = .ok () := by
  have hiterations : brief.iterations {} = .ok 5 := if_pos (by decide +kernel)
  have henvironment : brief.environment rooted {} ws.hereText [] = .ok [("EXPLORER_ITERATIONS", "5")] := by
    rw [Benchmark.environment, Benchmark.iterationsText, hiterations]
    rfl
  have hcommand : [Path.absolute ws.hereText "/brief"].any Benchmark.hasNull = false := by
    simpa [Benchmark.hasNull, Path.absolute] using Path.not_mem_normalize _
  have hsettings : [("EXPLORER_ITERATIONS", "5")].any (fun (k, v) =>
      k.contains '=' || Benchmark.hasNull k || Benchmark.hasNull v) = false := by
    have hsign : "EXPLORER_ITERATIONS".contains '=' = false := by simp
    show ("EXPLORER_ITERATIONS".contains '=' || _ || _ || false) = false
    rw [hsign]
    decide
  refine ⟨_, by rw [Benchmark.launch, henvironment]; rfl, if_neg ?_⟩
  rw [Bool.not_eq_true, Bool.or_eq_false_iff]
  exact ⟨hcommand, hsettings⟩

/-- An explorer that runs benchmarks by this launcher. -/
def recording : Explorer Unit where
  host := processHost recorder [] ⟨fun _ => true, true, "", none, true⟩
  settings := {}

/-- A session in which the capture of an earlier run is left over. -/
def untidy : Session Unit where
  world := ()
  workspace := rootFiles [("brief", ""), ("brief-plain.events", "left over")]
  dataset := none

/-- What the process finds, and with its capture what it leaves. -/
def tidied : Workspace :=
  ⟨[], [([], .directory), (["brief"], .file "".toUTF8 true), (["brief-plain.err"], .file "".toUTF8 false)]⟩

theorem load_of_blank {ws : Workspace} {path : String} (h : ws.read path = .ok "".toUTF8) (interval : Int) :
    Capture.load ws path interval = .ok {} := by
  have hdecode : Workspace.decode? "".toUTF8 = some [] := by
    rw [Workspace.decode?, Text.fromUTF8?_toUTF8]
    rfl
  have hevents : Capture.readEvents ws path = .ok {} := by
    rw [Capture.readEvents, h]
    simp only [Except.mapError, bind, Except.bind, hdecode]
    rfl
  have hnone : ([] : List Capture.Iteration).mergeSort Capture.Iteration.le = [] := List.mergeSort_nil
  rw [Capture.load, hevents]
  show Capture.aggregate {} interval = _
  rw [Capture.aggregate, hnone]
  rfl

theorem exists_ran_recorder : ∃ l : Launch, brief.run recorder [] rooted {} false untidy.workspace =
    ⟨.ok ⟨100, l.logFile, "/" ++ "brief-plain.events", l.command⟩, (recorder l tidied).2, ""⟩ := by
  obtain ⟨hpresent, hmade⟩ : brief.checkPresent {} untidy.workspace = .ok () ∧
      Benchmark.makeResultsDir rooted untidy.workspace = .ok untidy.workspace := found_brief _
  obtain ⟨l, hlaunch, hwords⟩ := exists_launch_brief untidy.workspace
  have hevents : rooted.eventsFile brief.name = "/" ++ "brief-plain.events" := by decide +kernel
  have hlog : rooted.logFile brief.name = "/" ++ "brief-plain.err" := by decide +kernel
  have hdropped : brief.dropCapture rooted untidy.workspace = .ok (rootFiles [("brief", "")]) := by
    have hplace : untidy.workspace.locate ("/" ++ "brief-plain.events") = .ok ["brief-plain.events"] :=
      locate_rootFiles _ _ (by decide) (by decide) (by decide)
    rw [Benchmark.dropCapture, hevents, Workspace.holds, Workspace.entry?, Workspace.remove, hplace]
    rfl
  have hemptied : brief.emptyLog rooted (rootFiles [("brief", "")]) = .ok tidied := by
    have hplace : (rootFiles [("brief", "")]).locate ("/" ++ "brief-plain.err") = .ok ["brief-plain.err"] :=
      locate_rootFiles _ _ (by decide) (by decide) (by decide)
    rw [Benchmark.emptyLog, hlog, if_neg (by decide), Workspace.writeText, Workspace.write,
      Workspace.locateFile_eq (by decide +kernel), hplace]
    rfl
  have hstart : brief.start recorder rooted {} false l untidy.workspace =
      ⟨.ok ⟨100, l.logFile, "/" ++ "brief-plain.events", l.command⟩, (recorder l tidied).2, ""⟩ := by
    unfold Benchmark.start
    dsimp only
    rw [hdropped]
    dsimp only
    rw [hemptied]
    dsimp only
    rw [hwords, ← hevents]
    rfl
  refine ⟨l, ?_⟩
  rw [Benchmark.run, hpresent]
  dsimp only
  rw [hmade]
  dsimp only
  rw [hlaunch]
  exact hstart

theorem exists_run_untidy : ∃ r t, (recording.run brief rooted).on untidy = (.ok r, t) := by
  obtain ⟨l, hran⟩ := exists_ran_recorder
  obtain ⟨u, hlaunched, hfiles⟩ : ∃ u, (recording.launch brief rooted).on untidy =
      (.ok ⟨100, l.logFile, "/" ++ "brief-plain.events", l.command⟩, u) ∧ u.workspace = (recorder l tidied).2 :=
    ⟨_, Prod.ext (congrArg Trial.outcome hran) rfl, congrArg Trial.workspace hran⟩
  have hread : u.workspace.read ("/" ++ "brief-plain.events") = .ok "".toUTF8 := by
    rw [hfiles]
    exact Workspace.read_rooted rfl _ (by decide) (by decide) (by decide) rfl
  have hloaded : ((recording.load ("/" ++ "brief-plain.events")).on u).1 = .ok {} := load_of_blank hread _
  obtain ⟨t, hattempt⟩ : ∃ t, (recording.attempt brief rooted).on untidy =
      (.ok (⟨100, l.logFile, "/" ++ "brief-plain.events", l.command⟩, {}), t) := by
    rw [Explorer.attempt, Exploring.on_bind_ok hlaunched, Exploring.on_bind_ok (Exploring.on_caught _ u)]
    dsimp only
    rw [hloaded]
    exact ⟨_, rfl⟩
  exact ⟨_, t, recording.run_of_attempt (by decide) hattempt⟩

/-- A capture is left over, and the run is measured by the one that its own process makes. -/
theorem run_fresh_recorder : ∃ run m t, (recording.run brief rooted).on untidy = (.ok (run, m), t) ∧
    ∃ u before, recording.Retried brief rooted u untidy ∧
      u.Adds [.ran brief rooted (.ok run), .loaded (.ok m)] t ∧
      brief.Completes recorder [] rooted {} run u.workspace before t.workspace ∧
      Appears run.eventsFile before t.workspace ∧ Capture.load t.workspace run.eventsFile 100000 = .ok m := by
  obtain ⟨⟨run, m⟩, t, hrun⟩ := exists_run_untidy
  have hhost : recording.host.StartsProcesses (fun _ => recorder) [] :=
    processHost_startsProcesses (fun _ _ => rfl) [] _
  exact ⟨run, m, t, hrun, Explorer.run_fresh hhost hrun⟩

end Recorded

end InlineImpact.Exploration
