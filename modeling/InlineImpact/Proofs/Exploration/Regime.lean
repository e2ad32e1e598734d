import InlineImpact.Proofs.Exploration.Fault

/-!
Hosts that answer alike whenever they are asked: what a run comes to, what its capture holds and what its
log reports depend on benchmark and configuration only. On such a host a retry changes nothing, and the
measurement of a tree follows from what is remembered and from the regime alone.
-/
namespace InlineImpact.Exploration

open Exploring (Yields)

variable {W α : Type}

/-- The failure leaves no report behind, or an aborted one. -/
def Terminal (failure : Failure) : Prop := Fatal failure ∨ ∃ point, failure = .aborted point

theorem Fatal.terminal {failure : Failure} (h : Fatal failure) : Terminal failure := .inl h

/-- What runs come to, what their captures hold and what their logs report. -/
structure Regime where
  run : Benchmark → Configuration → Except Failure CompletedRun
  capture : Benchmark → Configuration → Except Failure Measurement
  log : Benchmark → Configuration → Except Failure Forest

/-- The host answers by the regime, in whatever state it is. Nothing but a failed run or an unreadable
capture keeps a run from counting. -/
structure Host.Obeys (h : Host W) (p : Regime) : Prop where
  run : ∀ settings verbose b c ws w, (h.run settings verbose b c ws w).1.outcome = p.run b c
  load : ∀ settings verbose b c ws w run interval, p.run b c = .ok run →
    (h.load run.eventsFile interval (h.run settings verbose b c ws w).1.workspace
      (h.run settings verbose b c ws w).2).1 = p.capture b c
  log : ∀ settings verbose b c ws w run, p.run b c = .ok run →
    Forest.load (h.run settings verbose b c ws w).1.workspace run.logFile = p.log b c
  run_error : ∀ b c failure, p.run b c = .error failure → ∃ fault code, failure = .run fault code
  load_error : ∀ path interval ws w failure, (h.load path interval ws w).1 = .error failure →
    failure.isUnreadable = true ∨ ∃ fault code, failure = .run fault code

theorem Host.Obeys.blamesNoForest {h : Host W} {p : Regime} (hp : h.Obeys p) : h.BlamesNoForest where
  run settings verbose b c ws w fault heq := by
    rw [hp.run] at heq
    obtain ⟨fault', code, hrun⟩ := hp.run_error b c _ heq
    cases hrun
  load path interval ws w fault heq := by
    rcases hp.load_error path interval ws w _ heq with hunreadable | ⟨fault', code, hrun⟩
    · cases hunreadable
    · cases hrun

namespace Regime

variable (p : Regime)

/-- What a run comes to once its capture is read. -/
def attempt (b : Benchmark) (c : Configuration) : Except Failure (CompletedRun × Measurement) :=
  match p.run b c with
  | .error failure => .error failure
  | .ok run =>
    match p.capture b c with
    | .ok m => .ok (run, m)
    | .error failure =>
      if failure.isUnreadable then
        .error (.run (.unreadableCapture b.name c.name failure.message) (some run.exitCode))
      else .error failure

/-- What is remembered after a run. -/
def learn (b : Benchmark) (c : Configuration) (known : Keyed (String × String) Measurement) :
    Keyed (String × String) Measurement :=
  match p.attempt b c with
  | .ok r => known.put (b.name, c.name) r.2
  | .error _ => known

/-- The measurement under a configuration, and what is remembered after it. -/
def measure (b : Benchmark) (c : Configuration) (known : Keyed (String × String) Measurement) :
    Except Failure Measurement × Keyed (String × String) Measurement :=
  match known.get? (b.name, c.name) with
  | some m => (.ok m, known)
  | none => ((p.attempt b c).map Prod.snd, p.learn b c known)

/-- The forest and the measurement of a model. -/
def model (b : Benchmark) (c : Configuration) : Except Failure (Forest × Measurement) :=
  match p.attempt b c with
  | .ok r => (p.log b c).map (·, r.2)
  | .error failure => .error failure

/-- The regimes answer alike for the run. -/
def SameAt (q : Regime) (b : Benchmark) (c : Configuration) : Prop :=
  p.run b c = q.run b c ∧ p.capture b c = q.capture b c ∧ p.log b c = q.log b c

variable {p} {b : Benchmark} {c : Configuration}

theorem SameAt.attempt_eq {q : Regime} (h : p.SameAt q b c) : p.attempt b c = q.attempt b c := by
  rw [attempt, attempt, h.1, h.2.1]

theorem learn_of_ok {r : CompletedRun × Measurement} (h : p.attempt b c = .ok r)
    (known : Keyed (String × String) Measurement) :
    p.learn b c known = known.put (b.name, c.name) r.2 := by
  rw [learn, h]

theorem learn_of_error {failure : Failure} (h : p.attempt b c = .error failure)
    (known : Keyed (String × String) Measurement) : p.learn b c known = known := by
  rw [learn, h]

theorem measure_of_known {known : Keyed (String × String) Measurement} {m : Measurement}
    (h : known.get? (b.name, c.name) = some m) : p.measure b c known = (.ok m, known) := by
  rw [measure, h]

theorem measure_of_unknown {known : Keyed (String × String) Measurement}
    (h : known.get? (b.name, c.name) = none) :
    p.measure b c known = ((p.attempt b c).map Prod.snd, p.learn b c known) := by
  rw [measure, h]

end Regime

/-- The session `t` comes after `s` without new rows or contexts; these measurements are remembered. -/
structure Session.Learns (s : Session W) (known : Keyed (String × String) Measurement) (t : Session W) :
    Prop where
  measurements : t.measurements = known
  explored : t.explored = s.explored
  rows : t.rows = s.rows

namespace Session.Learns

variable {s t u : Session W} {known : Keyed (String × String) Measurement}

theorem trans (h : s.Learns s.measurements t) (h' : t.Learns known u) : s.Learns known u :=
  ⟨h'.1, h'.2.trans h.2, h'.3.trans h.3⟩

theorem of_adds {J : List Event} (h : s.Adds J t) (hrows : J.filterMap Event.row? = []) :
    s.Learns s.measurements t :=
  ⟨h.measurements, h.explored, by simp [Session.rows, h.journal, hrows]⟩

theorem remember (h : s.Learns s.measurements t) (b : Benchmark) (c : Configuration) (m : Measurement) :
    s.Learns (s.measurements.put (b.name, c.name) m) (t.remember b c m) :=
  ⟨congrArg (Keyed.put (b.name, c.name) m) h.1, h.2, h.3⟩

end Session.Learns

section Runs

variable {e : Explorer W} {p : Regime} (hp : e.host.Obeys p) (b : Benchmark) (c : Configuration)

theorem learns_of_run (s : Session W) : s.Learns s.measurements ((e.run b c).on s).2 := by
  rcases e.run_spec b c s with ⟨-, failure, h⟩ | ⟨-, J, hblock, hadds⟩
  · rw [h]
    exact ⟨rfl, rfl, rfl⟩
  · exact .of_adds hadds hblock.row_free

/-- Reading a log teaches no measurement. -/
theorem loadForest_learns {s t : Session W} {run : CompletedRun} {o : Except Failure Forest}
    (hlog : Forest.load t.workspace run.logFile = o) {known : Keyed (String × String) Measurement}
    (ht : s.Learns known t) : (Explorer.loadForest run).Yields t (fun f u => o = .ok f ∧ s.Learns known u)
      (fun failure u => o = .error failure ∧ s.Learns known u) := by
  unfold Explorer.loadForest
  refine .after (Exploring.on_get t) ?_
  rw [hlog]
  cases o with
  | error failure => exact .of_error (Exploring.on_bind_error (Exploring.on_demand _ t) _) ⟨rfl, ht⟩
  | ok f =>
    refine .after (Exploring.on_demand _ t) (.after (Exploring.on_modify _ t) (.pure ⟨rfl, ?_⟩))
    exact ⟨ht.measurements, ht.explored, (rows_of_journal (.reported f) rfl).trans (by simp [Event.row?, ht.rows])⟩

include hp

theorem launch_obeys (s : Session W) : (e.launch b c).Yields s
    (fun run t => p.run b c = .ok run ∧ Forest.load t.workspace run.logFile = p.log b c ∧
      (e.load run.eventsFile).Yields t
        (fun m u => p.capture b c = .ok m ∧ Forest.load u.workspace run.logFile = p.log b c)
        (fun failure _ => p.capture b c = .error failure))
    (fun failure _ => p.run b c = .error failure) := by
  have hrun := hp.run e.settings e.veryVerbose b c s.workspace s.world
  refine ⟨fun run t h => ?_, fun failure t h => ?_⟩
  · obtain ⟨hout, rfl⟩ := Prod.mk.inj h
    have hrun := hrun.symm.trans hout
    have hlog := hp.log e.settings e.veryVerbose b c s.workspace s.world run hrun
    have hload := hp.load e.settings e.veryVerbose b c s.workspace s.world run e.settings.pmcInterval hrun
    refine ⟨hrun, hlog, fun m u hm => ?_, fun failure u hfailure => ?_⟩
    · obtain ⟨hm', rfl⟩ := Prod.mk.inj hm
      exact ⟨hload.symm.trans hm', hlog⟩
    · exact hload.symm.trans (Prod.mk.inj hfailure).1
  · exact hrun.symm.trans (Prod.mk.inj h).1

theorem attempt_obeys (s : Session W) : (e.attempt b c).Yields s
    (fun r t => p.attempt b c = .ok r ∧ Forest.load t.workspace r.1.logFile = p.log b c)
    (fun failure _ => p.attempt b c = .error failure) := by
  refine ((launch_obeys hp b c s).mono_error fun failure _ h => ?_).bind fun run t ⟨hrun, _, hload⟩ => ?_
  · simp only [Regime.attempt, h]
  · refine hload.caught_bind (fun m u ⟨hm, hlog⟩ => ?_) fun failure u hm => ?_
    · exact .pure ⟨by simp only [Regime.attempt, hrun, hm], hlog⟩
    · dsimp only
      split
      · rename_i hunreadable
        exact .throw (by simp only [Regime.attempt, hrun, hm, hunreadable, if_true])
      · rename_i hreadable
        exact .throw (by simp only [Regime.attempt, hrun, hm, if_neg hreadable])

/-- However often it is tried, a run comes to the same, unless an abort comes first. -/
theorem attempts_obeys (number left : Nat) (s : Session W) : (e.attempts b c number left).Yields s
    (fun r t => p.attempt b c = .ok r ∧ Forest.load t.workspace r.1.logFile = p.log b c)
    (fun failure _ => Terminal failure ∨ p.attempt b c = .error failure) := by
  induction left using Nat.strongRecOn generalizing number s with
  | ind left ih =>
    have hattempts := attempt_obeys hp b c s
    obtain ⟨next, t, hretrial, hnext⟩ := e.attempts_retrial b c number left s
    refine .of_on hnext ?_
    cases hretrial with
    | counted hattempt => exact .pure (hattempts.ok _ _ hattempt)
    | broken hattempt | exhausted hattempt => exact .throw (.inr (hattempts.error _ _ hattempt))
    | stopped => exact .throw (.inl (.inr ⟨_, rfl⟩))
    | again => exact ih _ (Nat.lt_succ_self _) _ _

theorem run_obeys (s : Session W) : (e.run b c).Yields s
    (fun r t => p.attempt b c = .ok r ∧ s.Learns s.measurements t ∧
      Forest.load t.workspace r.1.logFile = p.log b c)
    (fun failure t => Terminal failure ∨ p.attempt b c = .error failure ∧ s.Learns s.measurements t) := by
  have hlearns := learns_of_run (e := e) b c s
  have hyields : (e.run b c).Yields s
      (fun r t => p.attempt b c = .ok r ∧ Forest.load t.workspace r.1.logFile = p.log b c)
      (fun failure _ => Terminal failure ∨ p.attempt b c = .error failure) := by
    unfold Explorer.run
    split
    · exact .throw (.inl (.inl rfl))
    · exact attempts_obeys hp b c 1 _ s
  refine hyields.traced.mono (fun r t ⟨hon, hr, hlog⟩ => ?_) fun failure t ⟨hon, h⟩ => ?_
  · rw [hon] at hlearns
    exact ⟨hr, hlearns, hlog⟩
  · rw [hon] at hlearns
    exact h.imp_right fun h => ⟨h, hlearns⟩

/-- What measuring a tree comes to, and what is remembered after it. -/
theorem measureTree_obeys (t : Tree) (s : Session W) : (e.measureTree b t).Yields s
    (fun m u => ∃ c, Replay.configurationOf t e.settings.resultsDir = .ok c ∧
      (p.measure b c s.measurements).1 = .ok m ∧ s.Learns (p.measure b c s.measurements).2 u)
    (fun failure u => Terminal failure ∨ ∃ c, Replay.configurationOf t e.settings.resultsDir = .ok c ∧
      (p.measure b c s.measurements).1 = .error failure ∧ s.Learns (p.measure b c s.measurements).2 u) := by
  unfold Explorer.measureTree
  refine ((prepare_yields_configuration t s).mono_error fun _ _ h => .inl h.terminal).bind
    fun c u ⟨hc, hadds⟩ => .after (Exploring.on_get u) ?_
  have hu : s.Learns s.measurements u := .of_adds hadds rfl
  rw [hu.measurements]
  cases hknown : s.measurements.get? (b.name, c.name) with
  | some m =>
    have hm := Regime.measure_of_known (p := p) hknown
    exact .pure ⟨c, hc, by rw [hm], by rw [hm]; exact hu⟩
  | none =>
    have hm := Regime.measure_of_unknown (p := p) hknown
    refine ((run_obeys hp b c u).mono_error fun failure v hfail => ?_).bind fun r v ⟨hr, hv, _⟩ => ?_
    · refine hfail.imp_right fun ⟨hfailure, hv⟩ => ⟨c, hc, by rw [hm, hfailure]; rfl, ?_⟩
      rw [hm, Regime.learn_of_error hfailure]
      exact hu.trans (hu.measurements ▸ hv)
    · refine .after (Explorer.on_remember b c r.2 v) (.pure ⟨c, hc, by rw [hm, hr]; rfl, ?_⟩)
      rw [hm, Regime.learn_of_ok hr]
      exact (hu.trans (hu.measurements ▸ hv)).remember b c r.2

/-- The forest of the full model, by the regime. -/
theorem fullForest_obeys (s : Session W) : (e.fullForest b).Yields s
    (fun r t => p.model b e.fullModel = .ok r ∧ s.Learns (p.learn b e.fullModel s.measurements) t)
    (fun failure t => Terminal failure ∨
      p.model b e.fullModel = .error failure ∧ s.Learns (p.learn b e.fullModel s.measurements) t) := by
  have hcapture : (e.capture b e.fullModel).Yields s
      (fun r t => p.model b e.fullModel = .ok r ∧ s.Learns (p.learn b e.fullModel s.measurements) t)
      (fun failure t => Terminal failure ∨
        p.model b e.fullModel = .error failure ∧ s.Learns (p.learn b e.fullModel s.measurements) t) := by
    unfold Explorer.capture
    refine ((run_obeys hp b e.fullModel s).mono_error fun failure t hfail => ?_).bind
      fun r t ⟨hr, ht, hlog⟩ => ?_
    · refine hfail.imp_right fun ⟨hfailure, ht⟩ => ⟨by rw [Regime.model, hfailure], ?_⟩
      rw [Regime.learn_of_error hfailure]
      exact ht
    · have hlearns := ht.remember b e.fullModel r.2
      rw [← Regime.learn_of_ok hr] at hlearns
      refine .after (Explorer.on_remember b e.fullModel r.2 t) ?_
      have hload := loadForest_learns (t := t.remember b e.fullModel r.2) hlog hlearns
      refine (hload.mono_error fun failure u ⟨hf, hu⟩ => .inr ⟨?_, hu⟩).bind fun f u ⟨hf, hu⟩ => .pure ⟨?_, hu⟩
      · rw [Regime.model, hr, hf]
        rfl
      · rw [Regime.model, hr, hf]
        rfl
  unfold Explorer.fullForest
  refine hcapture.bind fun r t h => ?_
  dsimp only
  split
  · exact .after (Exploring.on_say _ t) (.pure ⟨h.1, h.2.1, h.2.2, h.2.3⟩)
  · exact .pure h

end Runs

end InlineImpact.Exploration
