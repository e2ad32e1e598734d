import InlineImpact.Proofs.Dataset
import InlineImpact.Proofs.Exploration.Journal
import InlineImpact.Proofs.Forest.Bound

/-!
Where an exploration can work: its settings make sense, its host does what it is asked or says why not,
and files can be written. Handing out rows and giving up on a root leave it so.
-/
namespace InlineImpact

/-- The counts are not negative, and the measures of noise are doubles. -/
structure Settings.IsSound (s : Settings) : Prop where
  retries : 0 ≤ s.maxRetries
  resamples : 0 ≤ s.bootstrapResamples
  seed : 0 ≤ s.seed
  threshold : ∃ x, s.noiseThreshold.toFloat "noise threshold" = .ok x
  sigmas : ∃ x, s.noiseSigmas.toFloat "noise sigmas" = .ok x

namespace Exploration

variable {W : Type}

/-- A host that does what is asked of it or says why it does not, and leaves room for the layout. -/
structure Host.Behaves (h : Host W) (settings : Settings) (L : Layout) : Prop where
  /-- What is wrong at the start is that counters cannot be captured. -/
  probe : ∀ failure, h.probe settings = .error failure → ∃ fault, failure = .counters fault
  /-- A run that counts names its log, and the log may hold anything but a forest with long integers. -/
  run_ok : ∀ verbose b c ws w run, L.Fits ws → (h.run settings verbose b c ws w).1.outcome = .ok run →
    '\x00' ∉ run.logFile.toList ∧ ∀ f,
      Forest.load (h.run settings verbose b c ws w).1.workspace run.logFile = .ok f → f.IsShort
  run_error : ∀ verbose b c ws w failure, L.Fits ws →
    (h.run settings verbose b c ws w).1.outcome = .error failure →
    (∃ fault code, failure = .run fault code) ∨ ∃ fault, failure = .benchmark fault
  run_keeps : ∀ verbose b c ws w, L.Fits ws → L.Keeps ws (h.run settings verbose b c ws w).1.workspace
  load_ok : ∀ path interval ws w m, (h.load path interval ws w).1 = .ok m → m.CountsWords
  load_error : ∀ path interval ws w failure, (h.load path interval ws w).1 = .error failure →
    failure.isUnreadable = true

/-- There is room for files, and what is remembered counts its calls in words. -/
structure Workable (L : Layout) (s : Session W) : Prop where
  fits : L.Fits s.workspace
  carries : ∀ w, s.dataset = some w → L.Carries w s.workspace
  counts : ∀ key m, s.measurements.get? key = some m → m.CountsWords

/-- The run names its log, and a forest that the log holds has short integers. -/
def Session.Logs (s : Session W) (run : CompletedRun) : Prop :=
  '\x00' ∉ run.logFile.toList ∧ ∀ f, Forest.load s.workspace run.logFile = .ok f → f.IsShort

namespace Workable

variable {L : Layout} {s t : Session W} {fail : Failure → Session W → Prop}

/-- More files, and no other measurements. -/
theorem keep (h : Workable L s) (hk : L.Keeps s.workspace t.workspace) (hd : t.dataset = s.dataset)
    (hm : t.measurements = s.measurements) : Workable L t := by
  refine ⟨hk.fits, fun w hw => ?_, fun key m hget => ?_⟩
  · exact (h.carries w (hd ▸ hw)).keep hk
  · exact h.counts key m (hm ▸ hget)

theorem still (h : Workable L s) (hw : t.workspace = s.workspace) (hd : t.dataset = s.dataset)
    (hm : t.measurements = s.measurements) : Workable L t := by
  refine h.keep ?_ hd hm
  rw [hw]
  exact .refl h.fits

theorem say (h : Workable L s) (text : String) : (say text).Yields s (fun _ t => Workable L t) fail :=
  .of_ok (Exploring.on_say text s) (h.still rfl rfl rfl)

theorem poll (h : Workable L s) (e : Explorer W) : e.poll.Yields s (fun _ t => Workable L t) fail :=
  .of_ok (e.on_poll s) (h.still rfl rfl rfl)

theorem remember (h : Workable L s) (b : Benchmark) (c : Configuration) {m : Measurement}
    (hm : m.CountsWords) : Workable L (s.remember b c m) := by
  refine ⟨h.fits, h.carries, fun key m' hget => ?_⟩
  rw [Session.remember, Keyed.get?_put] at hget
  split at hget
  · exact Option.some.inj hget ▸ hm
  · exact h.counts key m' hget

/-- Every row with ordinary counts is handed out. -/
theorem emit (h : Workable L s) {row : Dataset.Row} (hrow : row.IsOrdinary) :
    (emit row).Yields s (fun _ t => Workable L t) fail := by
  cases hd : s.dataset with
  | none =>
    have hon : (Exploration.emit row).on s = (.ok (), s.note (.emitted row)) := by
      simp only [Exploring.on, ExceptT.run, StateT.run, Exploration.emit, hd]
    exact .of_ok hon (h.still rfl rfl rfl)
  | some w =>
    obtain ⟨w', ws, happend, hkeep, hcarries⟩ := (h.carries w hd).append h.fits hrow
    have hon : (Exploration.emit row).on s =
        (.ok (), { s with dataset := some w', workspace := ws }.note (.emitted row)) := by
      simp only [Exploring.on, ExceptT.run, StateT.run, Exploration.emit, hd, happend]
    refine .of_ok hon ⟨hkeep.fits, fun w'' hw => ?_, h.counts⟩
    exact Option.some.inj hw ▸ hcarries

theorem emitMissing (h : Workable L s) (b : Benchmark) (root : MethodId) (ds : List Decision) :
    (Explorer.emitMissing b root ds).Yields s (fun _ t => Workable L t) fail := by
  induction ds generalizing s with
  | nil => exact .pure h
  | cons d rest ih =>
    refine .after (Exploring.on_isExplored _ s) ?_
    split
    · exact ih h
    · refine (h.emit fun est hest => by cases hest).bind fun _ t ht => ?_
      exact (ih ht).bind fun _ _ hu => .pure hu

theorem emitMeasured (h : Workable L s) (b : Benchmark) (root : MethodId) (d : Decision) {est : Estimate}
    (hrow : Dataset.Row.IsOrdinary ⟨b.name, root, d, some est⟩) :
    (Explorer.emitMeasured b root d est).Yields s (fun _ t => Workable L t) fail := by
  refine (h.emit hrow).bind fun _ t ht => .of_ok (Exploring.on_markExplored _ t) ?_
  split
  · exact ht
  · exact ht.still rfl rfl rfl

theorem giveUp (h : Workable L s) (b : Benchmark) (ds : List Decision) (report : RootReport)
    (fault : RunFault) : (Explorer.giveUp b ds report fault).Yields s (fun _ t => Workable L t) fail :=
  (h.say _).bind fun _ _ ht => (ht.emitMissing b report.root ds).bind fun _ _ hu => .pure hu

end Workable

end Exploration

end InlineImpact
