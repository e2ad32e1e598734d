import InlineImpact.Proofs.Exploration.Journal
import InlineImpact.Proofs.Outcome

/-!
Which failures end a whole exploration. A failed run ends the work on a root, and a missing forest that
on a benchmark; whatever else goes wrong while trees are written out, runs are compared and rows are
handed out has no verdict, so no work is cut short by it and still reported.
-/
namespace InlineImpact.Exploration

variable {W α β : Type}

/-- The failure ends the exploration, and no report is made. -/
def Fatal (failure : Failure) : Prop := Explorer.verdict? failure = none

/-- A computation with no other failures than those that end an exploration. -/
def FailsFatally (x : Except Failure α) : Prop := ∀ failure, x = .error failure → Fatal failure

namespace FailsFatally

variable {x : Except Failure α}

theorem ok (a : α) : FailsFatally (.ok a : Except Failure α) := FailsOnly.ok a

theorem error {failure : Failure} (h : Fatal failure) : FailsFatally (.error failure : Except Failure α) :=
  FailsOnly.error h

theorem bind {k : α → Except Failure β} (hx : FailsFatally x) (hk : ∀ a, FailsFatally (k a)) :
    FailsFatally (x >>= k) := FailsOnly.bind hx hk

theorem mapError {ε : Type} {y : Except ε α} {g : ε → Failure} (h : ∀ fault, Fatal (g fault)) :
    FailsFatally (y.mapError g) := FailsOnly.mapError h

theorem map {g : α → β} (hx : FailsFatally x) : FailsFatally (x.map g) := FailsOnly.map hx

theorem mapM {k : α → Except Failure β} (hk : ∀ a, FailsFatally (k a)) (as : List α) : FailsFatally (as.mapM k) :=
  FailsOnly.mapM hk as

end FailsFatally

section Estimates

open FailsFatally

theorem failsFatally_toFloat (what : String) (q : Quantity) : FailsFatally (q.toFloat what) := by
  unfold Quantity.toFloat
  split
  · split
    · exact ok _
    · exact error rfl
  · exact ok _

theorem failsFatally_meanVariance (m : Measurement) : FailsFatally (Estimate.meanVariance m) := by
  unfold Estimate.meanVariance
  split
  · exact ok _
  · exact error rfl

theorem failsFatally_standardError (a b : Measurement) : FailsFatally (Estimate.standardError a b) :=
  bind (failsFatally_meanVariance a) fun _ => bind (failsFatally_meanVariance b) fun _ => ok _

theorem failsFatally_isNoise (threshold sigmas : Float) (empty full : Measurement) :
    FailsFatally (isNoise threshold sigmas empty full) :=
  bind (failsFatally_standardError empty full) fun _ => ok _

theorem failsFatally_bootstrapConfidence (child parent : List Float) (resamples seed minSamples : Int) :
    FailsFatally (Estimate.bootstrapConfidence child parent resamples seed minSamples) := by
  unfold Estimate.bootstrapConfidence
  split
  · exact error rfl
  · split
    · exact error rfl
    · split
      · exact error rfl
      · exact ok _

theorem failsFatally_ofRuns (child parent : Measurement) (callee root : Option MethodId)
    (rootCalls : Option Int) (resamples minSamples seed : Int) :
    FailsFatally (Estimate.ofRuns child parent callee root rootCalls resamples minSamples seed) := by
  unfold Estimate.ofRuns
  dsimp only
  split
  · exact ok _
  · refine bind (failsFatally_standardError child parent) fun deviation => ?_
    have hconfidence := failsFatally_bootstrapConfidence child.samples parent.samples resamples seed minSamples
    split
    · exact ok _
    · exact ok _
    · rename_i failure _ hfailure
      exact error (hconfidence failure hfailure)

theorem failsFatally_share (delta : Option Float) (count : Int) :
    FailsFatally (Estimate.share delta count) := by
  unfold Estimate.share
  split
  · exact ok _
  · split
    · exact ok _
    · split
      · exact ok _
      · exact error rfl

theorem failsFatally_noise (e : Explorer W) (empty full : Measurement) : FailsFatally (e.noise empty full) :=
  .bind (failsFatally_toFloat _ _) fun _ => .bind (failsFatally_toFloat _ _) fun _ =>
    failsFatally_isNoise _ _ empty full

theorem failsFatally_estimate (e : Explorer W) (f : Forest) (root : MethodId) (d : Decision)
    (child parent : Measurement) : FailsFatally (e.estimate f root d child parent) :=
  failsFatally_ofRuns _ _ _ _ _ _ _ _

end Estimates

section Storing

open FailsFatally

theorem failsFatally_cells (row : Dataset.Row) (columns : Dataset.Columns) :
    FailsFatally (row.cells columns) := by
  refine bind (bind ?_ fun _ => ok _) fun _ => ok _
  unfold Dataset.Row.outcome
  cases row.estimate with
  | none => exact ok _
  | some est =>
    exact bind (failsFatally_share est.delta est.callDelta) fun _ =>
      bind (failsFatally_share est.delta est.rootCalls) fun _ => ok _

theorem failsFatally_append (w : Dataset.Writer) (ws : Workspace) (row : Dataset.Row) :
    FailsFatally (w.append ws row).1 := by
  have hstart : FailsFatally (w.start ws).1 := by
    unfold Dataset.Writer.start
    split
    · exact ok _
    · split
      · exact error rfl
      · dsimp only
        split
        · exact error rfl
        · exact ok _
  have hopen (w : Dataset.Writer) (ws : Workspace) : FailsFatally (w.appendOpen ws row).1 := by
    unfold Dataset.Writer.appendOpen
    split
    · rename_i failure hcells
      exact error (failsFatally_cells row w.columns failure hcells)
    · split
      · exact error rfl
      · exact ok _
  unfold Dataset.Writer.append
  split
  · exact hopen _ _
  · exact hstart

theorem failsFatally_prepare (ws : Workspace) (t : Tree) (resultsDir : String) :
    FailsFatally (Replay.prepare ws t resultsDir) := by
  have hcontent : FailsFatally (Replay.content t) := by
    unfold Replay.content
    split
    · exact ok _
    · exact error rfl
  have hcurrent (ws : Workspace) (path text : String) : FailsFatally (Replay.isCurrent ws path text) := by
    unfold Replay.isCurrent
    split
    · exact ok _
    · split
      · exact error rfl
      · split
        · exact error rfl
        · exact ok _
  have hstorage {β : Type} (x : Except StorageFault β) : FailsFatally (x.mapError Failure.storage) :=
    mapError fun _ => rfl
  intro failure h
  rcases of_bind_eq_error h with h | ⟨text, -, h⟩
  · exact hcontent failure h
  rcases of_bind_eq_error h with h | ⟨ws₁, -, h⟩
  · exact hstorage _ failure h
  rcases of_bind_eq_error h with h | ⟨current, -, h⟩
  · exact hcurrent _ _ _ failure h
  cases current with
  | true => cases h
  | false =>
    rcases of_bind_eq_error h with h | ⟨ws₂, -, h⟩
    · exact hstorage _ failure h
    · cases h

/-- A row that is not handed out ends the exploration. -/
theorem fatal_of_emit {row : Dataset.Row} {s t : Session W} {failure : Failure}
    (h : (emit row).on s = (.error failure, t)) : Fatal failure := by
  unfold Exploring.on ExceptT.run StateT.run emit at h
  cases hd : s.dataset with
  | none => simp [hd] at h
  | some w =>
    have happend := failsFatally_append w s.workspace row
    rcases ha : w.append s.workspace row with ⟨o, w', ws⟩
    rw [ha] at happend
    cases o with
    | ok => simp [hd, ha] at h
    | error failure' =>
      obtain ⟨rfl, -⟩ : failure' = failure ∧ _ = t := by simpa [hd, ha] using h
      exact happend failure' rfl

end Storing

section Runs

/-- Only the log of a run can be found without a forest: no run fails for one, and no reading of a
capture. -/
structure Host.BlamesNoForest (h : Host W) : Prop where
  run : ∀ settings verbose b c ws w fault,
    (h.run settings verbose b c ws w).1.outcome ≠ .error (.forest fault)
  load : ∀ path interval ws w fault, (h.load path interval ws w).1 ≠ .error (.forest fault)

/-- The failure is not that a forest is missing. -/
def Spared (failure : Failure) : Prop := ∀ fault, failure ≠ .forest fault

theorem spared_run (fault : RunFault) (code : Option Int) : Spared (.run fault code) := nofun

theorem spared_aborted (point : AbortPoint) : Spared (.aborted point) := nofun

theorem Fatal.spared {failure : Failure} (h : Fatal failure) : Spared failure := by
  rintro fault rfl
  cases h

variable {e : Explorer W}

theorem attempt_spared (he : e.host.BlamesNoForest) (b : Benchmark) (c : Configuration) (s : Session W) :
    (e.attempt b c).Yields s (fun _ _ => True) fun failure _ => Spared failure := by
  have hlaunch : (e.launch b c).Yields s (fun _ _ => True) fun failure _ => Spared failure := by
    refine ⟨fun _ _ _ => trivial, fun failure t h fault heq => ?_⟩
    obtain ⟨hout, -⟩ := Prod.mk.inj h
    exact he.run _ _ _ _ _ _ fault (hout.trans (congrArg Except.error heq))
  have hload (path : String) (t : Session W) :
      (e.load path).Yields t (fun _ _ => True) fun failure _ => Spared failure := by
    refine ⟨fun _ _ _ => trivial, fun failure u h fault heq => ?_⟩
    obtain ⟨hout, -⟩ := Prod.mk.inj h
    exact he.load _ _ _ _ fault (hout.trans (congrArg Except.error heq))
  refine hlaunch.bind fun run t _ => (hload run.eventsFile t).caught_bind (fun m u _ => .pure trivial) ?_
  intro failure u hfailure
  dsimp only
  split
  · exact .throw (spared_run _ _)
  · exact .throw hfailure

theorem attempts_spared (he : e.host.BlamesNoForest) (b : Benchmark) (c : Configuration)
    (number left : Nat) (s : Session W) :
    (e.attempts b c number left).Yields s (fun _ _ => True) fun failure _ => Spared failure := by
  induction left using Nat.strongRecOn generalizing number s with
  | ind left ih =>
    obtain ⟨next, t, hretrial, hnext⟩ := e.attempts_retrial b c number left s
    refine .of_on hnext ?_
    cases hretrial with
    | counted => exact .pure trivial
    | broken hattempt => exact .throw ((attempt_spared he b c s).error _ _ hattempt)
    | exhausted => exact .throw (spared_run _ _)
    | stopped => exact .throw (spared_aborted _)
    | again => exact ih _ (Nat.lt_succ_self _) _ _

/-- What a demand gives is what was asked for. -/
theorem demand_yields {r : Except Failure α} (h : FailsFatally r) (s : Session W) :
    (demand r).Yields s (fun a t => r = .ok a ∧ t = s) fun failure _ => Fatal failure :=
  ⟨fun _ _ ho => ⟨(Prod.mk.inj ho).1, (Prod.mk.inj ho).2.symm⟩, fun failure _ ho => h failure (Prod.mk.inj ho).1⟩

/-- A tree that cannot be written out ends the exploration. -/
theorem prepare_yields_configuration (t : Tree) (s : Session W) : (e.prepare t).Yields s
    (fun c u => Replay.configurationOf t e.settings.resultsDir = .ok c ∧ s.Adds [.prepared t] u)
    fun failure _ => Fatal failure := by
  unfold Explorer.prepare
  refine .after (Exploring.on_get s) ((demand_yields (failsFatally_prepare _ _ _) s).bind ?_)
  rintro ⟨c, workspace⟩ _ ⟨hc, rfl⟩
  exact .after (Exploring.on_modify _ _) (.pure ⟨Replay.configurationOf_of_prepare hc, rfl, rfl, rfl⟩)

theorem run_spared (he : e.host.BlamesNoForest) (b : Benchmark) (c : Configuration) (s : Session W) :
    (e.run b c).Yields s (fun _ _ => True) fun failure _ => Spared failure := by
  unfold Explorer.run
  split
  · exact .throw nofun
  · exact attempts_spared he b c 1 _ s

/-- What keeps a tree from being measured is not a missing forest. -/
theorem measureTree_spared (he : e.host.BlamesNoForest) (b : Benchmark) (t : Tree) (s : Session W) :
    (e.measureTree b t).Yields s (fun _ _ => True) fun failure _ => Spared failure := by
  refine ((prepare_yields_configuration t s).mono_error fun _ _ => Fatal.spared).bind fun c u _ =>
    .after (Exploring.on_get u) ?_
  split
  · exact .pure trivial
  · exact (run_spared he b c u).bind fun r v _ => .after (Explorer.on_remember b c r.2 v) (.pure trivial)

end Runs

end InlineImpact.Exploration
