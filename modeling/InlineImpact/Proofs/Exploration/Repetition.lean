import InlineImpact.Proofs.Exploration.Deduplication
import InlineImpact.Proofs.Exploration.LastAttempt
import InlineImpact.Proofs.Exploration.Total
import InlineImpact.Proofs.Noise

/-!
What is known of a decision that is passed over. Its context has a row with an estimate from two runs
that counted, handed out before the decision was reached, and the row stays the only one of that context.
A run counts also if its capture has no sample; then the estimate comes without a delta, and the
decision stays without one. `exploreRoot_passesOver` is the main result.
-/
namespace InlineImpact

namespace Estimate

variable {child parent : Measurement} {callee root : Option MethodId} {rootCalls : Option Int}
  {resamples minSamples seed : Int} {est : Estimate}

/-- Without samples on both sides nothing but calls is estimated. -/
theorem ofRuns_of_eq_nil (h : child.samples = [] ∨ parent.samples = []) :
    ∃ calls ofRoot, ofRuns child parent callee root rootCalls resamples minSamples seed =
      .ok ⟨none, none, calls, ofRoot, none, .lowSamples⟩ := by
  have hsize : child.size = 0 ∨ parent.size = 0 := by simpa [Measurement.size] using h
  rw [ofRuns, if_pos hsize]
  exact ⟨_, _, rfl⟩

theorem delta_eq_none_iff (h : ofRuns child parent callee root rootCalls resamples minSamples seed = .ok est) :
    est.delta = none ↔ child.samples = [] ∨ parent.samples = [] := by
  by_cases hempty : child.samples = [] ∨ parent.samples = []
  · refine iff_of_true ?_ hempty
    obtain ⟨calls, ofRoot, hnone⟩ := ofRuns_of_eq_nil hempty
    rw [← Except.ok.inj (hnone.symm.trans h)]
  · refine iff_of_false ?_ hempty
    obtain ⟨hchild, hparent⟩ := not_or.1 hempty
    simp [delta_of_ofRuns h hchild hparent]

end Estimate

namespace Exploration

open Relation (ReflTransGen)
open Dataset (Row)
open Journal

variable {W : Type}

/-- Of decisions that are gone through in order those that are measured: the contexts of the others are
explored, or were come across before. -/
def anew (explored : List Decision.Context) : List Decision → List Decision
  | [] => []
  | d :: ds => if d.context ∈ explored then anew explored ds else d :: anew (explored ++ [d.context]) ds

section Anew

variable {explored : List Decision.Context} {d : Decision} {ds : List Decision}

@[simp] theorem anew_nil : anew explored [] = [] := rfl

theorem anew_cons_of_mem (h : d.context ∈ explored) : anew explored (d :: ds) = anew explored ds := if_pos h

theorem anew_cons_of_not_mem (h : d.context ∉ explored) :
    anew explored (d :: ds) = d :: anew (explored ++ [d.context]) ds := if_neg h

theorem anew_eq_nil (h : ∀ d ∈ ds, d.context ∈ explored) : anew explored ds = [] := by
  induction ds with
  | nil => rfl
  | cons d ds ih =>
    obtain ⟨hd, hds⟩ := List.forall_mem_cons.1 h
    rw [anew_cons_of_mem hd, ih hds]

theorem mem_of_mem_anew (h : d ∈ anew explored ds) : d ∈ ds := by
  induction ds generalizing explored with
  | nil => cases h
  | cons d' ds ih =>
    by_cases hd : d'.context ∈ explored
    · rw [anew_cons_of_mem hd] at h
      exact .tail _ (ih h)
    · rw [anew_cons_of_not_mem hd] at h
      rcases List.mem_cons.1 h with rfl | h
      · exact .head _
      · exact .tail _ (ih h)

/-- A decision is measured, or its context is explored or that of a decision which is measured. -/
theorem anew_covers (hd : d ∈ ds) :
    d.context ∈ explored ∨ ∃ d' ∈ anew explored ds, d'.context = d.context := by
  induction ds generalizing explored with
  | nil => cases hd
  | cons d' ds ih =>
    by_cases hd' : d'.context ∈ explored
    · rw [anew_cons_of_mem hd']
      rcases List.mem_cons.1 hd with rfl | hd
      · exact .inl hd'
      · exact ih hd
    · rw [anew_cons_of_not_mem hd']
      rcases List.mem_cons.1 hd with rfl | hd
      · exact .inr ⟨d, .head _, rfl⟩
      · have hcover : d.context ∈ explored ++ [d'.context] ∨ _ := ih hd
        rcases hcover with hmem | ⟨d'', hmem, heq⟩
        · rcases List.mem_append.1 hmem with hmem | hmem
          · exact .inl hmem
          · exact .inr ⟨d', .head _, (List.mem_singleton.1 hmem).symm⟩
        · exact .inr ⟨d'', .tail _ hmem, heq⟩

/-- Which decisions are measured does not depend on those that come after. -/
theorem anew_subset_append (explored : List Decision.Context) (A B : List Decision) :
    anew explored A ⊆ anew explored (A ++ B) := by
  induction A generalizing explored with
  | nil => exact List.nil_subset _
  | cons d A ih =>
    by_cases hd : d.context ∈ explored
    · rw [List.cons_append, anew_cons_of_mem hd, anew_cons_of_mem hd]
      exact ih explored
    · rw [List.cons_append, anew_cons_of_not_mem hd, anew_cons_of_not_mem hd]
      exact List.cons_subset_cons d (ih _)

end Anew

/-- Some run of the benchmark with this name counted, and came to this measurement. -/
def Journal.Counted (J : List Event) (name : String) (m : Measurement) : Prop :=
  ∃ A b c, CountedAfter A J b c m ∧ b.name = name

section Assertions

variable (e : Explorer W)

/-- The row's estimate compares two runs of its benchmark that counted. -/
def Explorer.Based (J : List Event) (row : Row) (est : Estimate) : Prop :=
  ∃ f child parent, Counted J row.benchmark child ∧ Counted J row.benchmark parent ∧
    e.estimate f row.root row.decision child parent = .ok est

/-- The rows that are handed out as the first `n` of the decisions are gone through. -/
structure Explorer.Sifted (ds : List Decision) (n : Nat) (new : List Row) (s t : Session W) : Prop where
  le : n ≤ ds.length
  journal : s.journal <+: t.journal
  rows : t.rows = s.rows ++ new
  measured : (new.filter (·.estimate.isSome)).map (·.decision) = anew s.explored (ds.take n)
  based : ∀ row ∈ new, ∀ est, row.estimate = some est → e.Based t.journal row est

/-- The second report is the first one after the first `n` of the decisions were gone through. -/
structure RootReport.Passes (report r : RootReport) (explored : List Decision.Context) (ds : List Decision)
    (n : Nat) : Prop where
  pairs : r.pairs = report.pairs + (anew explored (ds.take n)).length
  all : r.pairs + r.skipped = report.pairs + report.skipped + n

/-- Some of the decisions are gone through from a report to a report. -/
def Explorer.Passes (ds : List Decision) (report : RootReport) (s : Session W) (r : RootReport)
    (t : Session W) : Prop :=
  ∃ n new, e.Sifted ds n new s t ∧ report.Passes r s.explored ds n

/-- Some of the decisions were gone through when there was a failure. -/
def Explorer.Stops (ds : List Decision) (s : Session W) (_failure : Failure) (t : Session W) : Prop :=
  ∃ n new, e.Sifted ds n new s t

/-- What is remembered and what is explored comes from runs that counted. -/
structure Explorer.Grounded (s : Session W) : Prop where
  remembering : Remembering e s
  deduplicated : Deduplicated s
  based : ∀ row ∈ s.rows, ∀ est, row.estimate = some est → e.Based s.journal row est

end Assertions

section Sifting

variable {e : Explorer W} {J K : List Event} {name : String} {m : Measurement} {row : Row} {est : Estimate}
  {d : Decision} {ds : List Decision} {n : Nat} {new : List Row} {s t u : Session W}

theorem Journal.Counted.mono (h : Counted J name m) (hK : J <+: K) : Counted K name m := by
  obtain ⟨A, b, c, h, hb⟩ := h
  obtain ⟨L, rfl⟩ := hK
  exact ⟨A, b, c, h.append L, hb⟩

theorem Explorer.Based.mono (h : e.Based J row est) (hK : J <+: K) : e.Based K row est := by
  obtain ⟨f, child, parent, hchild, hparent, hest⟩ := h
  exact ⟨f, child, parent, hchild.mono hK, hparent.mono hK, hest⟩

namespace Explorer.Sifted

/-- No decision is gone through; there are rows without data at most. -/
theorem none (hj : s.journal <+: t.journal) (hrows : t.rows = s.rows ++ new)
    (hnone : ∀ row ∈ new, row.estimate = none) : e.Sifted ds 0 new s t where
  le := Nat.zero_le _
  journal := hj
  rows := hrows
  measured := by
    rw [List.filter_eq_nil_iff.2 fun row hrow => by simp [hnone row hrow]]
    rfl
  based row hrow est hest := by
    rw [hnone row hrow] at hest
    cases hest

theorem refl (s : Session W) : e.Sifted ds 0 [] s s :=
  none (List.prefix_refl _) (by simp) (by simp)

/-- First there were runs and words only. -/
theorem after (hquiet : ReflTransGen (Quiet e) s t) (h : e.Sifted ds n new t u) : e.Sifted ds n new s u where
  le := h.le
  journal := (Quiet.run_journal_le hquiet).trans h.journal
  rows := by rw [h.rows, Quiet.run_rows_eq hquiet]
  measured := by rw [h.measured, Quiet.run_explored hquiet]
  based := h.based

theorem pass (hd : d.context ∈ s.explored) (h : e.Sifted ds n new s t) :
    e.Sifted (d :: ds) (n + 1) new s t where
  le := Nat.succ_le_succ h.le
  journal := h.journal
  rows := h.rows
  measured := by rw [h.measured, List.take_succ_cons, anew_cons_of_mem hd]
  based := h.based

theorem measure (hd : d.context ∉ s.explored) (hj : u.journal = s.journal ++ [.emitted row])
    (hexplored : u.explored = s.explored ++ [d.context]) (hrow : row.decision = d)
    (hest : row.estimate = some est) (hbased : e.Based s.journal row est) (h : e.Sifted ds n new u t) :
    e.Sifted (d :: ds) (n + 1) (row :: new) s t where
  le := Nat.succ_le_succ h.le
  journal := .trans ⟨_, hj.symm⟩ h.journal
  rows := by
    rw [h.rows, rows_of_journal _ hj, List.append_assoc]
    rfl
  measured := by
    rw [List.take_succ_cons, anew_cons_of_not_mem hd, ← hexplored, ← h.measured,
      List.filter_cons_of_pos (by rw [hest]; rfl), List.map_cons, hrow]
  based := by
    refine List.forall_mem_cons.2 ⟨fun est' hest' => ?_, h.based⟩
    obtain rfl := Option.some.inj (hest.symm.trans hest')
    exact hbased.mono (.trans ⟨_, hj.symm⟩ h.journal)

end Explorer.Sifted

end Sifting

section Measuring

variable {e : Explorer W} {b : Benchmark} {s : Session W}

/-- What a tree's measurement comes from is a run that counted, now or before. -/
theorem measureTree_counted (h : Remembering e s) (t : Tree) : (e.measureTree b t).Yields s
    (fun m u => Remembering e u ∧ Counted u.journal b.name m) (fun _ _ => True) := by
  have hremembering : Remembering e ((e.measureTree b t).on s).2 := h.measureTree
  have hspec := e.measureTree_spec b t s
  refine ⟨fun m u hon => ?_, fun _ _ _ => trivial⟩
  rw [hon] at hremembering hspec
  refine ⟨hremembering, ?_⟩
  generalize ho : (Except.ok m : Except Failure Measurement) = o at hspec
  cases hspec with
  | unprepared => cases ho
  | remembered hc hm hs =>
    obtain rfl := Except.ok.inj ho
    obtain ⟨A, b', c', hcounted, hkey⟩ := h.sound _ _ hm
    exact Counted.mono ⟨A, b', c', hcounted, congrArg Prod.fst hkey⟩ ⟨_, hs.journal.symm⟩
  | refused => cases ho
  | failed => cases ho
  | @counted c J run m' _ hc hn hr hb hs =>
    obtain rfl := Except.ok.inj ho
    obtain ⟨K, rfl⟩ := hb.exists_counted rfl
    exact ⟨s.journal ++ .prepared t :: K, b, c, ⟨run, [], by rw [hs.journal]; simp [Session.remember]⟩, rfl⟩

theorem measureEnds_counted (h : Remembering e s) (full : Tree) : (e.measureEnds b full).Yields s
    (fun runs u => Remembering e u ∧ Counted u.journal b.name runs.1) (fun _ _ => True) := by
  unfold Explorer.measureEnds
  refine (measureTree_counted h _).bind fun empty t ⟨ht, hempty⟩ => .after (e.on_poll t) ?_
  have hu : Remembering e (({ t with world := (e.host.poll t.world).2 } : Session W).note (.polled _)) :=
    ht.quiet (.poll t)
  generalize (e.host.poll t.world).1 = answer at hu ⊢
  cases answer with
  | true => exact .of_error (Exploring.on_bind_error (Exploring.on_throw _ _) _) trivial
  | false =>
    refine ((measureTree_counted hu full).traced.mono_error fun _ _ _ => trivial).bind
      fun all v ⟨hon, hv, _⟩ => .pure ⟨hv, hempty.mono ?_⟩
    have hquiet := (e.measureTree_within b full).steps hon
    exact .trans ⟨_, rfl⟩ (Quiet.run_journal_le hquiet)

theorem measurePair_counted (h : Remembering e s) (parent : Tree) {known : Option Measurement}
    (hknown : ∀ m, known = some m → Counted s.journal b.name m) (child : Tree) :
    (e.measurePair b parent known child).Yields s
      (fun runs u => Remembering e u ∧ Counted u.journal b.name runs.1 ∧ Counted u.journal b.name runs.2)
      (fun _ _ => True) := by
  have hrest {m : Measurement} {t : Session W} (ht : Remembering e t) (hm : Counted t.journal b.name m) :
      (e.measureTree b child >>= fun m' => pure (m, m')).Yields t
        (fun runs u => Remembering e u ∧ Counted u.journal b.name runs.1 ∧ Counted u.journal b.name runs.2)
        (fun _ _ => True) := by
    refine ((measureTree_counted ht child).traced.mono_error fun _ _ _ => trivial).bind
      fun m' u ⟨hon, hu, hm'⟩ => .pure ⟨hu, hm.mono ?_, hm'⟩
    exact Quiet.run_journal_le ((e.measureTree_within b child).steps hon)
  cases known with
  | some m => exact .after (Exploring.on_pure m s) (hrest h (hknown m rfl))
  | none => exact (measureTree_counted h parent).bind fun m t ⟨ht, hm⟩ => hrest ht hm

end Measuring

section Root

variable {e : Explorer W} {b : Benchmark} {f : Forest} {report r : RootReport} {ds : List Decision}
  {s t u : Session W}

namespace Explorer.Passes

theorem after (hquiet : ReflTransGen (Quiet e) s t) (h : e.Passes ds report t r u) : e.Passes ds report s r u := by
  obtain ⟨n, new, hsift, hr⟩ := h
  exact ⟨n, new, hsift.after hquiet, Quiet.run_explored hquiet ▸ hr⟩

/-- No decision is gone through any more. -/
theorem none (hsift : ∃ new, e.Sifted ds 0 new s t) (hpairs : r.pairs = report.pairs)
    (hskipped : r.skipped = report.skipped) : e.Passes ds report s r t := by
  obtain ⟨new, hsift⟩ := hsift
  exact ⟨0, new, hsift, hpairs, by rw [hpairs, hskipped, Nat.add_zero]⟩

theorem pass {d : Decision} (hd : d.context ∈ s.explored)
    (h : e.Passes ds { report with skipped := report.skipped + 1 } s r t) : e.Passes (d :: ds) report s r t := by
  obtain ⟨n, new, hsift, hpairs, hall⟩ := h
  have hall : r.pairs + r.skipped = report.pairs + (report.skipped + 1) + n := hall
  exact ⟨n + 1, new, hsift.pass hd, by rwa [List.take_succ_cons, anew_cons_of_mem hd], by omega⟩

theorem measure {d : Decision} {row : Row} {est : Estimate} (hd : d.context ∉ s.explored)
    (hj : t.journal = s.journal ++ [.emitted row]) (hexplored : t.explored = s.explored ++ [d.context])
    (hrow : row.decision = d) (hest : row.estimate = some est) (hbased : e.Based s.journal row est)
    (h : e.Passes ds { report with pairs := report.pairs + 1 } t r u) : e.Passes (d :: ds) report s r u := by
  obtain ⟨n, new, hsift, hpairs, hall⟩ := h
  have hpairs : r.pairs = report.pairs + 1 + (anew t.explored (ds.take n)).length := hpairs
  have hall : r.pairs + r.skipped = report.pairs + 1 + report.skipped + n := hall
  refine ⟨n + 1, row :: new, hsift.measure hd hj hexplored hrow hest hbased, ?_, by omega⟩
  rw [hpairs, List.take_succ_cons, anew_cons_of_not_mem hd, ← hexplored, List.length_cons]
  omega

end Explorer.Passes

theorem Explorer.Stops.after {failure : Failure} (hquiet : ReflTransGen (Quiet e) s t)
    (h : e.Stops ds t failure u) : e.Stops ds s failure u := by
  obtain ⟨n, new, hsift⟩ := h
  exact ⟨n, new, hsift.after hquiet⟩

/-- The rows of a root that is given up are all without data. -/
theorem giveUp_sifted (fault : RunFault) (ds' : List Decision) :
    (Explorer.giveUp b ds' report fault).Yields s (e.Passes ds report s) (e.Stops ds s) := by
  have hlost {E : List Event} {explored : List Decision.Context} {t : Session W}
      (hE : E <+: lostRows b report.root explored ds') (hj : t.journal = s.journal ++ E) :
      ∃ new, e.Sifted ds 0 new s t := by
    refine ⟨rows E, .none ⟨E, hj.symm⟩ (by rw [Session.rows, hj, List.filterMap_append]; rfl) fun row hrow => ?_⟩
    obtain ⟨ev, hev, hev'⟩ := List.mem_filterMap.1 hrow
    obtain ⟨d, -, rfl⟩ := List.mem_map.1 (hE.subset hev)
    exact (Option.some.inj hev') ▸ rfl
  unfold Explorer.giveUp
  refine .after (Exploring.on_say _ s) (((emitMissing_yields_lost b report.root ds' _).mono_error ?_).bind ?_)
  · rintro failure t ⟨-, E, hE, hj⟩
    obtain ⟨new, h⟩ := hlost hE hj
    exact ⟨0, new, h⟩
  · rintro n t ⟨-, hj, -⟩
    exact .pure (.none (hlost (List.prefix_refl _) hj) rfl rfl)

/-- The context of a measured decision is explored after its row, if that could be appended. -/
theorem emitMeasured_explores (h : Remembering e s) (root : MethodId) (d : Decision) (est : Estimate)
    (hd : d.context ∉ s.explored) : (Explorer.emitMeasured b root d est).Yields s
      (fun _ t => Remembering e t ∧ t.journal = s.journal ++ [.emitted ⟨b.name, root, d, some est⟩] ∧
        t.explored = s.explored ++ [d.context])
      (fun _ t => t.journal = s.journal) := by
  have hstep := Step.measured (e := e) (p := fun _ _ => True) s b root d est hd trivial
  rcases on_emit ⟨b.name, root, d, some est⟩ s with ⟨dataset, ws, hm⟩ | ⟨failure, dataset, ws, hm⟩
  · have hemit : (Explorer.emitMeasured b root d est).on s = (markExplored d.context).on _ :=
      Exploring.on_bind_ok hm _
    rw [hemit] at hstep
    rw [Exploring.on_markExplored, if_neg (by simpa [Session.note] using hd)] at hemit hstep
    exact .of_ok hemit ⟨h.step hstep, rfl, rfl⟩
  · exact .of_error (Exploring.on_bind_error hm _) rfl

/-- First there were runs and words only. -/
theorem sifted_after {x : Exploring W RootReport} (hquiet : ReflTransGen (Quiet e) s t)
    (h : x.Yields u (e.Passes ds report t) (e.Stops ds t)) :
    x.Yields u (e.Passes ds report s) (e.Stops ds s) :=
  h.mono (fun _ _ hr => hr.after hquiet) fun _ _ hf => hf.after hquiet

theorem cutShort_sifted (failure : Failure) (ds' : List Decision) :
    (Explorer.cutShort b ds' report failure).Yields s (e.Passes ds report s) (e.Stops ds s) := by
  cases failure with
  | aborted point => exact .pure (.none ⟨_, .refl s⟩ rfl rfl)
  | run fault code => exact giveUp_sifted fault ds'
  | _ => exact .throw ⟨0, [], .refl s⟩

/-- A pair is recorded, and the tree grows on as `hgrow` has it. -/
theorem record_sifted (h : Remembering e s) {d : Decision} {rest : List Decision} {child : Tree}
    {parentRun childRun : Measurement} (hparent : Counted s.journal b.name parentRun)
    (hchild : Counted s.journal b.name childRun) (hd : d.context ∉ s.explored)
    (hgrow : ∀ t, Remembering e t → Counted t.journal b.name childRun →
      (e.grow b f child (some childRun) { report with pairs := report.pairs + 1 } rest).Yields t
        (e.Passes rest { report with pairs := report.pairs + 1 } t) (e.Stops rest t)) :
    (e.record b f report d rest child parentRun childRun).Yields s
      (e.Passes (d :: rest) report s) (e.Stops (d :: rest) s) := by
  obtain ⟨next, t, hrecording, hnext⟩ := e.record_recording b f report d rest child parentRun childRun s
  refine .of_on hnext ?_
  cases hrecording with
  | unestimated _ => exact .throw ⟨0, [], .refl s⟩
  | unwritten _ hemit =>
    have hj := (emitMeasured_explores h report.root d _ hd).error _ t hemit
    exact .throw ⟨0, [], .none (by rw [hj]) (by rw [Session.rows, hj, List.append_nil]; rfl) (by simp)⟩
  | @written est u _ _ hest hemit hsay =>
    obtain ⟨hu, hj, hexplored⟩ := (emitMeasured_explores h report.root d est hd).ok _ u hemit
    have hquiet := (e.say_within _).steps hsay
    have hbased : e.Based s.journal ⟨b.name, report.root, d, some est⟩ est :=
      ⟨f, childRun, parentRun, hchild, hparent, hest⟩
    have hcounted : Counted t.journal b.name childRun :=
      hchild.mono (.trans ⟨_, hj.symm⟩ (Quiet.run_journal_le hquiet))
    have hrest := hgrow t (hu.run (Quiet.run_steps (p := fun _ _ => True) hquiet)) hcounted
    refine (sifted_after hquiet hrest).mono (fun r v hr => ?_) fun failure v hf => ?_
    · exact hr.measure hd hj hexplored rfl rfl hbased
    · obtain ⟨n, new, hsift⟩ := hf
      exact ⟨n + 1, _, hsift.measure hd hj hexplored rfl rfl hbased⟩

/-- Growing a tree. By induction on the decisions that are left; what was explored grows with the decisions
that are measured. -/
theorem grow_sifted (h : Remembering e s) {tree : Tree} {known : Option Measurement}
    (hknown : ∀ m, known = some m → Counted s.journal b.name m) (ds : List Decision) :
    (e.grow b f tree known report ds).Yields s (e.Passes ds report s) (e.Stops ds s) := by
  induction ds generalizing tree known report s with
  | nil => exact .pure (.none ⟨_, .refl s⟩ rfl rfl)
  | cons d rest ih =>
    obtain ⟨answer, t, hpoll, next, u, hturn, hnext⟩ := e.grow_turn b f report d rest tree known s
    have hst := e.poll_within.steps hpoll
    have ht : Remembering e t := h.run (Quiet.run_steps (p := fun _ _ => True) hst)
    have hknown : ∀ m, known = some m → Counted t.journal b.name m := fun m hm =>
      (hknown m hm).mono (Quiet.run_journal_le hst)
    refine .of_on hnext (sifted_after hst ?_)
    cases hturn with
    | aborted => exact .pure (.none ⟨_, .refl t⟩ rfl rfl)
    | refused _ => exact .throw ⟨0, [], .refl t⟩
    | passed _ hd =>
      exact (ih ht fun _ hm => by cases hm).mono (fun _ _ hr => hr.pass hd)
        fun _ _ ⟨n, new, hsift⟩ => ⟨n + 1, new, hsift.pass hd⟩
    | @unpaired _ _ child _ _ _ hpair =>
      exact sifted_after ((e.measurePair_within b tree known child).steps hpair) (cutShort_sifted _ (d :: rest))
    | @paired _ _ child parentRun childRun _ hd hpair =>
      have htu := (e.measurePair_within b tree known child).steps hpair
      obtain ⟨hu, hparent, hchild⟩ := (measurePair_counted ht tree hknown child).lands hpair
      have hd : d.context ∉ u.explored := Quiet.run_explored htu ▸ hd
      refine sifted_after htu (record_sifted hu hparent hchild hd fun v hv hcounted => ih hv fun m hm => ?_)
      exact Option.some.inj hm ▸ hcounted

theorem exploreTree_sifted (h : Remembering e s) (full : Tree) :
    (e.exploreTree b f full).Yields s (e.Passes full.decisions { root := full.root, state := .measuring } s)
      (e.Stops full.decisions s) := by
  have hwithin := e.measureEnds_within b full
  obtain ⟨next, t, hentry, hnext⟩ := e.exploreTree_entry b f full s
  refine .of_on hnext ?_
  cases hentry with
  | unmeasured hends => exact sifted_after (hwithin.steps hends) (cutShort_sifted _ _)
  | unjudged hends _ => exact .throw (.after (hwithin.steps hends) ⟨0, [], .refl t⟩)
  | shortCircuited hends _ hsay =>
    exact .pure (.after ((hwithin.steps hends).trans ((e.say_within _).steps hsay)) (.none ⟨_, .refl t⟩ rfl rfl))
  | grown hends _ =>
    obtain ⟨ht, hempty⟩ := (measureEnds_counted h full).lands hends
    exact sifted_after (hwithin.steps hends) (grow_sifted ht (fun m hm => Option.some.inj hm ▸ hempty) _)

theorem exploreRoot_sifted (h : Remembering e s) (root : MethodId) :
    (e.exploreRoot b f root).Yields s (e.Passes (f.decisionsOf root) { root, state := .measuring } s)
      (e.Stops (f.decisionsOf root) s) := by
  have hds {full : Tree} (hf : f.tree root = .ok full) : f.decisionsOf root = full.decisions := by
    rw [Forest.decisionsOf, hf]
  apply Explorer.Opening.yields
  case hrefused => exact fun _ _ => ⟨0, [], .refl s⟩
  case hbare => exact fun _ _ _ => .none ⟨_, .refl s⟩ rfl rfl
  case hexplored =>
    intro full hf _ hall
    have hnil : anew s.explored full.decisions = [] := anew_eq_nil hall
    rw [hds hf]
    have hsift : e.Sifted full.decisions full.decisions.length [] s s :=
      ⟨le_rfl, List.prefix_refl _, by simp, by rw [List.take_length, hnil]; rfl, by simp⟩
    refine ⟨full.decisions.length, [], hsift, ?_, ?_⟩
    · rw [List.take_length, hnil]
      rfl
    · show 0 + full.decisions.length = 0 + 0 + full.decisions.length
      omega
  case hentered =>
    intro full hf _
    rw [hds hf]
    obtain rfl := Forest.root_of_tree hf
    exact exploreTree_sifted h full

end Root

section Lineage

/-- What happens between two visits of roots, and a visit. -/
inductive Visit (e : Explorer W) : Session W → Session W → Prop where
  | quiet {s t : Session W} (h : Quiet e s t) : Visit e s t
  | root (s : Session W) (b : Benchmark) (f : Forest) (root : MethodId) :
    Visit e s ((e.exploreRoot b f root).on s).2

/-- An explorer that began afresh can be in this session before it visits a root. -/
def Explorer.Reaches (e : Explorer W) (s : Session W) : Prop :=
  ∃ world workspace dataset, ReflTransGen (Visit e) (Session.fresh world workspace dataset) s

variable {e : Explorer W} {s t : Session W}

/-- Whatever is asked of an explorer, it visits roots, and is quiet in between. -/
theorem answerAll_visits (e : Explorer W) (s : Session W) (requests : List Request) :
    ReflTransGen (Visit e) s (e.answerAll s requests) :=
  e.answerAll_through (fun _ _ => .quiet) (fun b f root s => .single (.root s b f root)) s requests

theorem exploreRoot_sifts (h : Remembering e s) (b : Benchmark) (f : Forest) (root : MethodId) :
    let done := (e.exploreRoot b f root).on s
    ∃ n new, e.Sifted (f.decisionsOf root) n new s done.2 ∧ ∀ r, done.1 = .ok r →
      RootReport.Passes { root, state := .measuring } r s.explored (f.decisionsOf root) n := by
  intro done
  have hyields := exploreRoot_sifted (b := b) (f := f) h root
  rcases hdone : done with ⟨failure | r, t⟩
  · obtain ⟨n, new, hsift⟩ := hyields.error failure t hdone
    exact ⟨n, new, hsift, nofun⟩
  · obtain ⟨n, new, hsift, hr⟩ := hyields.ok r t hdone
    exact ⟨n, new, hsift, fun r' hr' => Except.ok.inj hr' ▸ hr⟩

namespace Explorer.Grounded

theorem fresh (world : W) (workspace : Workspace) (dataset : Option Dataset.Writer) :
    e.Grounded (Session.fresh world workspace dataset) :=
  ⟨.fresh world workspace dataset, .fresh world workspace dataset, by simp [Session.rows, Session.fresh]⟩

theorem quiet (h : e.Grounded s) (hs : Quiet e s t) : e.Grounded t where
  remembering := h.remembering.quiet hs
  deduplicated := h.deduplicated.congr hs.still.1 hs.rows_eq
  based row hrow est hest := by
    rw [hs.rows_eq] at hrow
    exact (h.based row hrow est hest).mono (Quiet.run_journal_le (.single hs))

theorem root (h : e.Grounded s) (b : Benchmark) (f : Forest) (root : MethodId) :
    e.Grounded ((e.exploreRoot b f root).on s).2 := by
  have hsteps := e.exploreRoot_within (p := fun _ _ => True) b f root trivial s
  obtain ⟨n, new, hsift, -⟩ := exploreRoot_sifts h.remembering b f root
  refine ⟨h.remembering.run hsteps, h.deduplicated.run hsteps, fun row hrow est hest => ?_⟩
  rw [hsift.rows] at hrow
  rcases List.mem_append.1 hrow with hrow | hrow
  · exact (h.based row hrow est hest).mono hsift.journal
  · exact hsift.based row hrow est hest

theorem of_reaches (h : e.Reaches s) : e.Grounded s := by
  obtain ⟨world, workspace, dataset, hvisits⟩ := h
  induction hvisits with
  | refl => exact .fresh world workspace dataset
  | tail _ hvisit ih =>
    cases hvisit with
    | quiet h => exact ih.quiet h
    | root b f root => exact ih.root b f root

end Explorer.Grounded

/-- In all there is one row with an estimate for the decision's context. It was handed out in an earlier
visit, or in this one for one of the decisions `A`. It compares two runs that counted, and it has a delta
unless one of these has no sample. -/
def Explorer.Settled (e : Explorer W) (s : Session W) (new : List Row) (t : Session W) (A : List Decision)
    (d : Decision) : Prop :=
  ∃ row est f child parent, t.rows.filter (·.Measures d.context) = [row] ∧
    (row ∈ s.rows ∨ row ∈ new ∧ row.decision ∈ A) ∧ row.estimate = some est ∧
    Counted t.journal row.benchmark child ∧ Counted t.journal row.benchmark parent ∧
    e.estimate f row.root row.decision child parent = .ok est ∧
    (est.delta = none ↔ child.samples = [] ∨ parent.samples = [])

theorem settled_of_mem {new : List Row} {A : List Decision} {d : Decision} {row : Row} (h : e.Grounded t)
    (hrow : row ∈ t.rows) (hm : row.Measures d.context) (hearly : row ∈ s.rows ∨ row ∈ new ∧ row.decision ∈ A) :
    e.Settled s new t A d := by
  obtain ⟨est, hest⟩ := Option.isSome_iff_exists.1 hm.1
  obtain ⟨f, child, parent, hchild, hparent, hestimate⟩ := h.based row hrow est hest
  have hmem : row ∈ t.rows.filter (·.Measures d.context) := List.mem_filter.2 ⟨hrow, by simpa using hm⟩
  have hle : (t.rows.filter (·.Measures d.context)).length ≤ 1 := by
    rw [← List.countP_eq_length_filter]
    exact h.deduplicated.countP_le_one d.context
  obtain ⟨row', hone⟩ := List.length_eq_one_iff.1 (le_antisymm hle (List.length_pos_of_mem hmem))
  rw [hone, List.mem_singleton] at hmem
  exact ⟨row, est, f, child, parent, hmem ▸ hone, hearly, hest, hchild, hparent, hestimate,
    Estimate.delta_eq_none_iff hestimate⟩

/-- Take any visit of a root in the life of an explorer that began afresh, and the first `n` of its
decisions as those that it goes through. Exactly those are measured whose context is neither explored nor
that of a decision before them, and the report counts these and the others. For each of the others
there is an earlier row with an estimate, and this has a delta if and only if both runs that it compares
have samples. -/
theorem exploreRoot_passesOver (e : Explorer W) {s : Session W} (hs : e.Reaches s) (b : Benchmark)
    (f : Forest) (root : MethodId) :
    let ds := f.decisionsOf root
    let done := (e.exploreRoot b f root).on s
    ∃ n new, n ≤ ds.length ∧ done.2.rows = s.rows ++ new ∧
      (new.filter (·.estimate.isSome)).map (·.decision) = anew s.explored (ds.take n) ∧
      (∀ r, done.1 = .ok r →
        r.pairs = (anew s.explored (ds.take n)).length ∧ r.pairs + r.skipped = n) ∧
      ∀ A d B, ds.take n = A ++ d :: B → (d.context ∈ s.explored ∨ ∃ d' ∈ A, d'.context = d.context) →
        e.Settled s new done.2 A d := by
  intro ds done
  have hground := Explorer.Grounded.of_reaches hs
  have hdone : e.Grounded done.2 := hground.root b f root
  obtain ⟨n, new, hsift, hr⟩ := exploreRoot_sifts hground.remembering b f root
  refine ⟨n, new, hsift.le, hsift.rows, hsift.measured, fun r hok => ?_, fun A d B hsplit hpassed => ?_⟩
  · obtain ⟨hpairs, hall⟩ := hr r hok
    exact ⟨hpairs.trans (Nat.zero_add _), hall.trans (Nat.zero_add _)⟩
  · have hrows : done.2.rows = s.rows ++ new := hsift.rows
    -- the context is explored from before, or a decision in `A` was measured
    have hcases : d.context ∈ s.explored ∨ ∃ d' ∈ anew s.explored A, d'.context = d.context := by
      rcases hpassed with h | ⟨d', hd', heq⟩
      · exact .inl h
      · exact heq ▸ anew_covers hd'
    rcases hcases with h | ⟨d', hd', heq⟩
    · obtain ⟨row, hrow, hm⟩ := (hground.deduplicated.explored_iff _).1 h
      exact settled_of_mem hdone (hrows ▸ List.mem_append_left _ hrow) hm (.inl hrow)
    · have hmeasured : d' ∈ (new.filter (·.estimate.isSome)).map (·.decision) := by
        rw [hsift.measured]
        exact hsplit ▸ anew_subset_append _ A _ hd'
      obtain ⟨row, hrow, rfl⟩ := List.mem_map.1 hmeasured
      obtain ⟨hrow, hest⟩ := List.mem_filter.1 hrow
      exact settled_of_mem hdone (hrows ▸ List.mem_append_right _ hrow) ⟨hest, heq⟩
        (.inr ⟨hrow, mem_of_mem_anew hd'⟩)

end Lineage

section Faint

/-- Every run counts, and only the capture of the first one has no sample. -/
def faint : Script := { capture := fun n => if n = 1 then {} else { samples := [1.0] } }

theorem exploreRoot_passesOver_faint :
    let e := faint.explorer
    let s := ((e.exploreRoot early Script.forest Script.full.root).on (Session.fresh 0 bareFiles none)).2
    let ds := Script.forest.decisionsOf Script.full.root
    let done := (e.exploreRoot late Script.forest Script.full.root).on s
    e.Reaches s ∧ ∃ n new, n ≤ ds.length ∧ done.2.rows = s.rows ++ new ∧
      (new.filter (·.estimate.isSome)).map (·.decision) = anew s.explored (ds.take n) ∧
      (∀ r, done.1 = .ok r →
        r.pairs = (anew s.explored (ds.take n)).length ∧ r.pairs + r.skipped = n) ∧
      ∀ A d B, ds.take n = A ++ d :: B → (d.context ∈ s.explored ∨ ∃ d' ∈ A, d'.context = d.context) →
        e.Settled s new done.2 A d := by
  intro e s ds done
  have hs : e.Reaches s := ⟨0, bareFiles, none, .single (.root _ early Script.forest Script.full.root)⟩
  exact ⟨hs, exploreRoot_passesOver e hs late Script.forest Script.full.root⟩

theorem isNoise_faint : isNoise 0.01 2.0 {} { samples := [1.0] } = .ok false := by
  have hmean : Measurement.mean { samples := [1.0] } = 1.0 := by
    rw [Measurement.mean, Statistics.mean, Statistics.pairwiseSum]
    rfl
  have herror : Estimate.standardError {} { samples := [1.0] } = .ok (Float.sqrt (0.0 + 0.0)) := by
    rw [Estimate.standardError, Estimate.meanVariance_of_size_lt (by decide),
      Estimate.meanVariance_of_size_lt (by decide)]
    rfl
  rw [isNoise, hmean, herror]
  rfl

/-- The first benchmark's run of the empty tree has no sample, so the row of the root's one decision has
no delta. When the second benchmark's turn comes, the root is passed by, and there is no other row. -/
theorem exploreRoot_faint_passesOver : ∃ d r t r' row est, Script.full.decisions = [d] ∧
    (faint.explorer.exploreRoot early Script.forest Script.full.root).on (Session.fresh 0 bareFiles none) =
      (.ok r, t) ∧
    (faint.explorer.exploreRoot late Script.forest Script.full.root).on t = (.ok r', t) ∧
    r'.pairs = 0 ∧ r'.skipped = 1 ∧ r'.reason = "all decisions already explored" ∧
    t.rows = [row] ∧ row.decision = d ∧ row.estimate = some est ∧ est.delta = none := by
  let e := faint.explorer
  let s : Session Nat := .fresh 0 bareFiles none
  obtain ⟨d, hd⟩ := Script.exists_decisions_eq
  obtain ⟨c, t, hc, hfits, -, hdataset, hexplored, hm, hends⟩ :=
    faint.on_measureEnds (s := s) bareFiles_fits early rfl rfl rfl rfl
  have hends : (e.measureEnds early Script.full).on s = (.ok ({}, { samples := [1.0] }), t) := hends
  have hrows : t.rows = [] := Quiet.run_rows_eq ((e.measureEnds_within early Script.full).steps hends)
  obtain ⟨est, hest, hdelta⟩ : ∃ est, e.estimate Script.forest Script.full.root d { samples := [1.0] } {} = .ok est ∧
      est.delta = none := by
    have hnil : ({ samples := [1.0] } : Measurement).samples = [] ∨ ({} : Measurement).samples = [] := .inr rfl
    obtain ⟨calls, ofRoot, h⟩ := Estimate.ofRuns_of_eq_nil hnil
    exact ⟨_, h, rfl⟩
  obtain ⟨u, hgrow, hurows, huexplored⟩ := faint.on_grow hfits rfl hdataset hexplored early hc hm hd
    { root := Script.full.root, state := .measuring } hest
  have hfirst : (e.exploreRoot early Script.forest Script.full.root).on s =
      (.ok ⟨Script.full.root, .exhausted, 1, 0, 0, ""⟩, u) := by
    have hnoise : (demand (isNoise 0.01 2.0 {} { samples := [1.0] })).on t = (.ok false, t) := by
      rw [isNoise_faint]
      rfl
    rw [faint.on_exploreRoot early fun _ _ => List.not_mem_nil, Explorer.exploreTree,
      Exploring.on_bind_ok (Exploring.on_caught _ _), hends]
    dsimp only
    rw [Exploring.on_bind_ok (show (demand (e.settings.noiseThreshold.toFloat _)).on t = (.ok 0.01, t) from rfl),
      Exploring.on_bind_ok (show (demand (e.settings.noiseSigmas.toFloat _)).on t = (.ok 2.0, t) from rfl),
      Exploring.on_bind_ok hnoise]
    exact hgrow
  have hagain := faint.on_exploreRoot_again (s := u) late (by simp [hd, huexplored])
  refine ⟨d, _, u, _, ⟨early.name, Script.full.root, d, some est⟩, est, hd, hfirst, hagain, rfl, rfl, rfl, ?_, rfl,
    rfl, hdelta⟩
  rw [hurows, hrows]
  rfl

end Faint

end Exploration

end InlineImpact
