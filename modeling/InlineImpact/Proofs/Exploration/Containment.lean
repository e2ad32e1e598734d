import InlineImpact.Proofs.Exploration.Pairing
import InlineImpact.Proofs.Exploration.Reporting

/-!
What can end an exploration. A failed run ends the work on one root, a missing forest that on one
benchmark, and a request to abort ends it in good order. Where files can be written, only two kinds of
failure go through: what the host itself cannot do without, and a tree whose root has a token so long
that the name of its file is too long.
-/
namespace InlineImpact

open Replay (fileName)
open Workspace (maxNameBytes)

namespace Exploration

variable {W α : Type}

/-- What a run comes to in the end, if it does not count. -/
inductive Unrun : Failure → Prop where
  | failed (fault : RunFault) (code : Option Int) : Unrun (.run fault code)
  | aborted (point : AbortPoint) : Unrun (.aborted point)
  | missing (fault : BenchmarkFault) : Unrun (.benchmark fault)

section Failures

variable (e : Explorer W)

/-- A tree of the forest cannot be written out, since the name of its file would be too long. -/
def Explorer.Unstorable (f : Forest) (failure : Failure) : Prop :=
  ∃ t text, f.Offers t ∧ Replay.content t = .ok text ∧ maxNameBytes < (fileName t text).utf8ByteSize ∧
    failure = .storage ⟨.nameTooLong,
      Replay.file (Replay.targetDir e.settings.resultsDir) (Replay.nameFor t text)⟩

/-- What keeps the forest of the full model from being had. -/
inductive Unreported : Failure → Prop where
  | unrun {failure : Failure} (h : Unrun failure) : Unreported failure
  | unread (fault : ForestFault) : Unreported (.forest fault)

/-- What ends the exploration of a forest, and of all others. -/
def Explorer.Breaks (f : Forest) (failure : Failure) : Prop :=
  (∃ fault, failure = .benchmark fault) ∨ e.Unstorable f failure

/-- What ends an exploration under way, by the journal so far. -/
def Explorer.Escapes (J : List Event) (failure : Failure) : Prop :=
  (∃ fault, failure = .benchmark fault) ∨ ∃ f, .reported f ∈ J ∧ e.Unstorable f failure

end Failures

section Runs

variable {e : Explorer W} {L : Layout} {s : Session W} (hhost : e.host.Behaves e.settings L)

include hhost

theorem launch_yields (h : Workable L s) (b : Benchmark) (c : Configuration) :
    (e.launch b c).Yields s (fun run t => Workable L t ∧ t.Logs run)
      (fun failure t => Workable L t ∧ Unrun failure) := by
  have hkeep : Workable L ((e.launch b c).on s).2 :=
    h.keep (hhost.run_keeps e.veryVerbose b c s.workspace s.world h.fits) rfl rfl
  have hok := hhost.run_ok e.veryVerbose b c s.workspace s.world
  have herror := hhost.run_error e.veryVerbose b c s.workspace s.world
  refine ⟨fun run t hrun => ?_, fun failure t hfailure => ?_⟩
  · rw [hrun] at hkeep
    obtain ⟨hout, rfl⟩ := Prod.mk.inj hrun
    exact ⟨hkeep, hok run h.fits hout⟩
  · rw [hfailure] at hkeep
    obtain ⟨hout, -⟩ := Prod.mk.inj hfailure
    rcases herror failure h.fits hout with ⟨fault, code, rfl⟩ | ⟨fault, rfl⟩
    · exact ⟨hkeep, .failed fault code⟩
    · exact ⟨hkeep, .missing fault⟩

theorem attempt_yields (h : Workable L s) (b : Benchmark) (c : Configuration) :
    (e.attempt b c).Yields s (fun r t => Workable L t ∧ r.2.CountsWords ∧ t.Logs r.1)
      (fun failure t => Workable L t ∧ Unrun failure) := by
  refine (launch_yields hhost h b c).bind fun run t ⟨ht, hlogs⟩ => ?_
  have hload : (e.load run.eventsFile).Yields t
      (fun m u => Workable L u ∧ m.CountsWords ∧ u.Logs run)
      (fun failure u => Workable L u ∧ failure.isUnreadable = true) := by
    refine ⟨fun m u hm => ?_, fun failure u hfailure => ?_⟩
    · obtain ⟨hout, rfl⟩ := Prod.mk.inj hm
      exact ⟨ht.still rfl rfl rfl, hhost.load_ok _ _ _ _ m hout, hlogs⟩
    · obtain ⟨hout, rfl⟩ := Prod.mk.inj hfailure
      exact ⟨ht.still rfl rfl rfl, hhost.load_error _ _ _ _ failure hout⟩
  refine hload.caught_bind (fun m u hu => .pure hu) fun failure u ⟨hu, hunreadable⟩ => ?_
  dsimp only
  rw [if_pos hunreadable]
  exact .throw ⟨hu, .failed _ _⟩

theorem attempts_yields (h : Workable L s) (b : Benchmark) (c : Configuration) (number left : Nat) :
    (e.attempts b c number left).Yields s (fun r t => Workable L t ∧ r.2.CountsWords ∧ t.Logs r.1)
      (fun failure t => Workable L t ∧ Unrun failure) := by
  induction left using Nat.strongRecOn generalizing number s with
  | ind left ih =>
    have hattempts := attempt_yields hhost h b c
    obtain ⟨next, t, hretrial, hnext⟩ := e.attempts_retrial b c number left s
    refine .of_on hnext ?_
    cases hretrial with
    | counted hattempt => exact .pure (hattempts.ok _ _ hattempt)
    | broken hattempt => exact .throw (hattempts.error _ _ hattempt)
    | exhausted hattempt hsay =>
      have ht := (hattempts.error _ _ hattempt).1
      exact .throw ⟨(ht.say _).lands hsay, .failed _ _⟩
    | stopped hattempt hsay hpoll =>
      have ht := (hattempts.error _ _ hattempt).1
      exact .throw ⟨(((ht.say _).lands hsay).poll e).lands hpoll, .aborted _⟩
    | again hattempt hsay hpoll hnote =>
      have ht := (hattempts.error _ _ hattempt).1
      have hv := (((ht.say _).lands hsay).poll e).lands hpoll
      exact ih _ (Nat.lt_succ_self _) ((hv.say _).lands hnote) _

theorem run_yields (hsettings : e.settings.IsSound) (h : Workable L s) (b : Benchmark)
    (c : Configuration) :
    (e.run b c).Yields s (fun r t => Workable L t ∧ r.2.CountsWords ∧ t.Logs r.1)
      (fun failure t => Workable L t ∧ Unrun failure) := by
  rw [Explorer.run, if_neg (Int.not_lt.2 hsettings.retries)]
  exact attempts_yields hhost h b c 1 _

theorem measure_yields (hsettings : e.settings.IsSound) (h : Workable L s) (b : Benchmark)
    (c : Configuration) :
    (e.measure b c).Yields s (fun m t => Workable L t ∧ m.CountsWords)
      (fun failure t => Workable L t ∧ Unrun failure) := by
  unfold Explorer.measure
  refine .after (Exploring.on_get s) ?_
  cases hm : s.measurements.get? (b.name, c.name) with
  | some m => exact .pure ⟨h, h.counts _ m hm⟩
  | none =>
    refine (run_yields hhost hsettings h b c).bind fun r t ⟨ht, hr, _⟩ => ?_
    exact .after (Explorer.on_remember b c r.2 t) (.pure ⟨ht.remember b c hr, hr⟩)

end Runs

section Roots

variable {e : Explorer W} {L : Layout} {s : Session W} {b : Benchmark} {f : Forest} {t full : Tree}

theorem exists_noise (hsettings : e.settings.IsSound) (empty run : Measurement) :
    ∃ noise, e.noise empty run = .ok noise := by
  obtain ⟨threshold, hthreshold⟩ := hsettings.threshold
  obtain ⟨sigmas, hsigmas⟩ := hsettings.sigmas
  obtain ⟨noise, hnoise⟩ := exists_isNoise threshold sigmas empty run
  exact ⟨noise, (Explorer.noise_eq hthreshold hsigmas empty run).trans hnoise⟩

/-- What the runs of two trees are compared by is there, and the row can be handed out. -/
theorem exists_estimate (hsettings : e.settings.IsSound) (hshort : f.IsShort) {child parent : Measurement}
    (hchild : child.CountsWords) (hparent : parent.CountsWords) (root : MethodId) (d : Decision) :
    ∃ est, e.estimate f root d child parent = .ok est ∧
      Dataset.Row.IsOrdinary ⟨b.name, root, d, some est⟩ := by
  obtain ⟨est, hest, hdelta, hcalls⟩ := Estimate.exists_ofRuns child parent (some d.callee) (some root)
    (Explorer.rootCalls f root child parent) hsettings.resamples hsettings.seed e.settings.minSamples
  refine ⟨est, hest, ?_⟩
  rintro _ ⟨⟩
  rw [hdelta, hcalls]
  constructor
  · have := hchild.calls (some d.callee)
    have := hparent.calls (some d.callee)
    exact Decimal.isOrdinary_of_word (by omega)
  · have hrecord := Decimal.isOrdinary_of_short (hshort.record root)
    have hword {m : Measurement} (hm : m.CountsWords) : Decimal.IsOrdinary (m.calls (some root)) :=
      Decimal.isOrdinary_of_word ((hm.calls (some root)).trans (by decide))
    unfold Explorer.rootCalls Estimate.orElse
    split
    · split
      · exact hrecord
      · exact hword hparent
    · exact hword hchild

variable (hsettings : e.settings.IsSound) (hL : L.TakesReplays e.settings.resultsDir)
  (hhost : e.host.Behaves e.settings L) (hshort : f.IsShort)

include hL

theorem prepare_of_long (h : Workable L s) {text : String} (htext : Replay.content t = .ok text)
    (hname : maxNameBytes < (fileName t text).utf8ByteSize) :
    (e.prepare t).on s = (.error (.storage ⟨.nameTooLong,
      Replay.file (Replay.targetDir e.settings.resultsDir) (Replay.nameFor t text)⟩), s) := by
  rw [Explorer.prepare, Exploring.on_bind_ok (Exploring.on_get s), hL.prepare_of_long h.fits htext hname]
  exact Exploring.on_bind_error (Exploring.on_demand _ s) _

/-- A root with something left to explore ends the exploration if its token is too long. -/
theorem exploreRoot_of_long (h : Workable L s) (hf : f.tree full.root = .ok full) {d : Decision}
    (hd : d ∈ full.decisions) (hnew : d.context ∉ s.explored) {text : String}
    (htext : Replay.content (.empty full.root) = .ok text)
    (hname : maxNameBytes < (fileName (.empty full.root) text).utf8ByteSize) :
    (e.exploreRoot b f full.root).on s = (.error (.storage ⟨.nameTooLong,
      Replay.file (Replay.targetDir e.settings.resultsDir) (Replay.nameFor (.empty full.root) text)⟩), s) := by
  have hends : (e.measureEnds b full).on s = (.error (.storage ⟨.nameTooLong,
      Replay.file (Replay.targetDir e.settings.resultsDir) (Replay.nameFor (.empty full.root) text)⟩), s) :=
    Exploring.on_bind_error (Exploring.on_bind_error (prepare_of_long hL h htext hname) _) _
  rw [e.on_exploreRoot_of_left hf ⟨d, hd, hnew⟩, e.on_exploreTree_of_error hends]
  rfl

include hshort

theorem prepare_yields (h : Workable L s) (ht : f.Offers t) :
    (e.prepare t).Yields s (fun _ u => Workable L u)
      (fun failure u => Workable L u ∧ e.Unstorable f failure) := by
  obtain ⟨text, htext⟩ := hshort.exists_content ht
  by_cases hname : (fileName t text).utf8ByteSize ≤ maxNameBytes
  · obtain ⟨c, ws, hprepare, hkeep⟩ := hL.prepare h.fits htext hname
    unfold Explorer.prepare
    refine .after (Exploring.on_get s) ?_
    rw [hprepare]
    refine .after (Exploring.on_demand _ s) (.after (Exploring.on_modify _ s) (.pure ?_))
    exact h.keep hkeep rfl rfl
  · have hlong := Nat.lt_of_not_le hname
    exact .of_error (prepare_of_long hL h htext hlong) ⟨h, t, text, ht, htext, hlong, rfl⟩

include hsettings hhost

theorem measureTree_yields (h : Workable L s) (ht : f.Offers t) :
    (e.measureTree b t).Yields s (fun m u => Workable L u ∧ m.CountsWords)
      (fun failure u => Workable L u ∧ (Unrun failure ∨ e.Unstorable f failure)) := by
  unfold Explorer.measureTree
  refine .bind ((prepare_yields hL hshort h ht).mono_error fun _ _ hu => ?_) fun c u hu => ?_
  · exact hu.imp_right .inr
  · exact (measure_yields hhost hsettings hu b c).mono_error fun _ _ hm => hm.imp_right .inl

theorem measureEnds_yields (h : Workable L s) (hf : f.tree full.root = .ok full) :
    (e.measureEnds b full).Yields s
      (fun runs u => Workable L u ∧ runs.1.CountsWords ∧ runs.2.CountsWords)
      (fun failure u => Workable L u ∧ (Unrun failure ∨ e.Unstorable f failure)) := by
  have hempty : f.Offers (.empty full.root) := ⟨full, 0, hf, rfl⟩
  have hfull : f.Offers full := ⟨full, full.size, hf, full.upTo_size.symm⟩
  unfold Explorer.measureEnds
  refine (measureTree_yields hsettings hL hhost hshort h hempty).bind fun empty u ⟨hu, hm⟩ => ?_
  refine (hu.poll e).bind fun answer v hv => ?_
  cases answer with
  | true => exact .of_error (Exploring.on_bind_error (Exploring.on_throw _ v) _) ⟨hv, .inl (.aborted _)⟩
  | false =>
    exact (measureTree_yields hsettings hL hhost hshort hv hfull).bind fun m w ⟨hw, hm'⟩ =>
      .pure ⟨hw, hm, hm'⟩

theorem measurePair_yields (h : Workable L s) (hf : f.tree full.root = .ok full) (i : Nat)
    {known : Option Measurement} (hknown : ∀ m, known = some m → m.CountsWords) :
    (e.measurePair b (full.upTo i) known (full.upTo (i + 1))).Yields s
      (fun runs u => Workable L u ∧ runs.1.CountsWords ∧ runs.2.CountsWords)
      (fun failure u => Workable L u ∧ (Unrun failure ∨ e.Unstorable f failure)) := by
  have hrest (m : Measurement) (u : Session W) (hu : Workable L u ∧ m.CountsWords) :
      (e.measureTree b (full.upTo (i + 1)) >>= fun m' => pure (m, m')).Yields u
        (fun runs v => Workable L v ∧ runs.1.CountsWords ∧ runs.2.CountsWords)
        (fun failure v => Workable L v ∧ (Unrun failure ∨ e.Unstorable f failure)) :=
    (measureTree_yields hsettings hL hhost hshort hu.1 (offers_upTo hf (i + 1))).bind
      fun m' v ⟨hv, hm'⟩ => .pure ⟨hv, hu.2, hm'⟩
  cases known with
  | some m => exact .after (Exploring.on_pure m s) (hrest m s ⟨h, hknown m rfl⟩)
  | none => exact (measureTree_yields hsettings hL hhost hshort h (offers_upTo hf i)).bind hrest

omit hsettings hL hhost hshort in
theorem cutShort_yields (h : Workable L s) (ds : List Decision) (report : RootReport) {failure : Failure}
    (hf : Unrun failure ∨ e.Unstorable f failure) :
    (Explorer.cutShort b ds report failure).Yields s (fun _ u => Workable L u)
      (fun failure u => Workable L u ∧ e.Breaks f failure) := by
  rcases hf with (⟨fault, code⟩ | ⟨point⟩ | ⟨fault⟩) | hlong
  · exact h.giveUp b ds report fault
  · exact .pure h
  · exact .throw ⟨h, .inl ⟨fault, rfl⟩⟩
  · obtain ⟨t, text, -, -, -, rfl⟩ := id hlong
    exact .throw ⟨h, .inr hlong⟩

/-- Growing a tree. By induction on the decisions that are left: each goes into the tree of those before
it, and the run of a known parent counts its calls in words. -/
theorem grow_yields (h : Workable L s) (hf : f.tree full.root = .ok full) {i : Nat} {ds : List Decision}
    (hds : full.decisions.drop i = ds) {known : Option Measurement}
    (hknown : ∀ m, known = some m → m.CountsWords) (report : RootReport) :
    (e.grow b f (full.upTo i) known report ds).Yields s (fun _ u => Workable L u)
      (fun failure u => Workable L u ∧ e.Breaks f failure) := by
  induction ds generalizing i s known report with
  | nil => exact .pure h
  | cons d rest ih =>
    obtain ⟨hd, hrest, hinsert⟩ := Tree.of_drop_eq_cons hds
    obtain ⟨answer, t, hpoll, next, u, hturn, hnext⟩ := e.grow_turn b f report d rest (full.upTo i) known s
    have ht : Workable L t := (h.poll e).lands hpoll
    have hmeasured := measurePair_yields hsettings hL hhost hshort ht hf i hknown (b := b)
    refine .of_on hnext ?_
    cases hturn with
    | aborted => exact .pure ht
    | refused hrefused => cases hrefused.symm.trans hinsert
    | passed hchild _ =>
      obtain rfl := Tree.eq_upTo_of_insert hd hchild
      exact ih ht hrest (fun m hm => by cases hm) _
    | unpaired hchild _ hpair =>
      obtain rfl := Tree.eq_upTo_of_insert hd hchild
      obtain ⟨hu, hfailure⟩ := hmeasured.error _ u hpair
      exact cutShort_yields hu (d :: rest) report hfailure
    | @paired _ _ _ parent child hchild _ hpair =>
      obtain rfl := Tree.eq_upTo_of_insert hd hchild
      obtain ⟨hu, hparent, hchild⟩ := hmeasured.ok _ u hpair
      obtain ⟨est, hest, hrow⟩ := exists_estimate (b := b) hsettings hshort hchild hparent report.root d
      have hemits : (Explorer.emitMeasured b report.root d est).Yields u (fun _ v => Workable L v)
          fun failure v => Workable L v ∧ e.Breaks f failure := hu.emitMeasured b report.root d hrow
      obtain ⟨next, v, hrecording, hnext⟩ := e.record_recording b f report d rest (full.upTo (i + 1)) parent child u
      refine .of_on hnext ?_
      cases hrecording with
      | unestimated hfailed => cases hfailed.symm.trans hest
      | unwritten hest' hemit =>
        obtain rfl := Except.ok.inj (hest'.symm.trans hest)
        exact .throw (hemits.error _ v hemit)
      | written hest' hemit hsay =>
        obtain rfl := Except.ok.inj (hest'.symm.trans hest)
        exact ih (((hemits.ok _ _ hemit).say _).lands hsay) hrest (fun m hm => Option.some.inj hm ▸ hchild) _

theorem exploreTree_yields (h : Workable L s) (hf : f.tree full.root = .ok full) :
    (e.exploreTree b f full).Yields s (fun _ u => Workable L u)
      (fun failure u => Workable L u ∧ e.Breaks f failure) := by
  have hends := measureEnds_yields hsettings hL hhost hshort h hf (b := b)
  obtain ⟨next, t, hentry, hnext⟩ := e.exploreTree_entry b f full s
  refine .of_on hnext ?_
  cases hentry with
  | unmeasured hon =>
    obtain ⟨ht, hfailure⟩ := hends.error _ t hon
    exact cutShort_yields ht _ _ hfailure
  | unjudged _ hnoise =>
    obtain ⟨noise, hjudged⟩ := exists_noise hsettings _ _
    cases hnoise.symm.trans hjudged
  | shortCircuited hon _ hsay => exact .pure (((hends.ok _ _ hon).1.say _).lands hsay)
  | grown hon _ =>
    obtain ⟨ht, hempty, -⟩ := hends.ok _ t hon
    exact grow_yields hsettings hL hhost hshort ht hf (i := 0) rfl (fun m hm => Option.some.inj hm ▸ hempty) _

theorem exploreRoot_yields (h : Workable L s) {root : MethodId} (hf : f.tree root = .ok full) :
    (e.exploreRoot b f root).Yields s (fun _ u => Workable L u)
      (fun failure u => Workable L u ∧ e.Breaks f failure) := by
  apply Explorer.Opening.yields
  case hrefused => exact fun _ hrefused => by cases hrefused.symm.trans hf
  case hbare => exact fun _ _ _ => h
  case hexplored => exact fun _ _ _ _ => h
  case hentered =>
    intro full hf _
    obtain rfl := Forest.root_of_tree hf
    exact exploreTree_yields hsettings hL hhost hshort h hf

theorem exploreRoots_yields (h : Workable L s) {roots : List MethodId}
    (hroots : ∀ root ∈ roots, ∃ full, f.tree root = .ok full) :
    (e.exploreRoots b f roots).Yields s (fun _ u => Workable L u)
      (fun failure u => Workable L u ∧ e.Breaks f failure) := by
  induction roots generalizing s with
  | nil => exact .pure h
  | cons root rest ih =>
    obtain ⟨⟨full, hf⟩, hrest⟩ := List.forall_mem_cons.1 hroots
    obtain ⟨answer, t, hpoll, next, u, hleg, hnext⟩ := e.exploreRoots_leg b f root rest s
    have ht : Workable L t := (h.poll e).lands hpoll
    have hroot := exploreRoot_yields (b := b) hsettings hL hhost hshort ht hf
    refine .of_on hnext ?_
    cases hleg with
    | aborted => exact .pure ht
    | failed hvisit => exact .throw (hroot.error _ _ hvisit)
    | cut hvisit => exact .pure (hroot.ok _ _ hvisit)
    | visited hvisit => exact (ih (hroot.ok _ _ hvisit) hrest).bind fun _ _ hv => .pure hv

theorem exploreForest_yields (h : Workable L s) (hroots : ∀ root ∈ f.roots, ∃ full, f.tree root = .ok full)
    (counts : MethodId → Option Int) :
    (e.exploreForest b f counts).Yields s (fun _ u => Workable L u)
      (fun failure u => Workable L u ∧ e.Breaks f failure) := by
  unfold Explorer.exploreForest
  refine (h.say _).bind fun _ u hu => ?_
  have hvisited : ∀ root ∈ f.rootsByCalls counts, ∃ full, f.tree root = .ok full := by
    intro root hroot
    exact hroots root (List.mem_mergeSort.1 hroot)
  exact (exploreRoots_yields hsettings hL hhost hshort hu hvisited).bind fun _ _ hv => .pure hv

end Roots

section Benchmarks

variable {e : Explorer W} {L : Layout} {s : Session W}

/-- The journal of before is part of the journal of after, whatever the operation comes to. -/
theorem Exploring.Yields.along {p : String → MethodId → Prop} {x : Exploring W α}
    {post : α → Session W → Prop} {fail : Failure → Session W → Prop} (hx : x.Yields s post fail)
    (hw : x.Within (Step e p)) : x.Yields s (fun a t => post a t ∧ s.journal <+: t.journal)
      (fun failure t => fail failure t ∧ s.journal <+: t.journal) := by
  have hle := Step.run_journal_le (hw s)
  constructor
  case ok =>
    intro a t h
    rw [h] at hle
    exact ⟨hx.ok a t h, hle⟩
  case error =>
    intro failure t h
    rw [h] at hle
    exact ⟨hx.error failure t h, hle⟩

/-- The forest was reported, its integers are short, and none of its roots is ambiguous. -/
structure Session.Holds (s : Session W) (f : Forest) : Prop where
  short : f.IsShort
  trees : ∀ root ∈ f.roots, ∃ full, f.tree root = .ok full
  reported : .reported f ∈ s.journal

/-- A log without a forest is all that can be wrong with the log of a run. -/
theorem loadForest_yields (h : Workable L s) {run : CompletedRun} (hlogs : s.Logs run) :
    (Explorer.loadForest run).Yields s (fun f t => Workable L t ∧ t.Holds f)
      (fun failure t => Workable L t ∧ Unreported failure) := by
  obtain ⟨hnull, hshort⟩ := hlogs
  unfold Explorer.loadForest
  refine .after (Exploring.on_get s) ?_
  cases hload : Forest.load s.workspace run.logFile with
  | ok f =>
    refine .after (Exploring.on_demand _ s) (.after (Exploring.on_modify _ s) (.pure ?_))
    refine ⟨h.still rfl rfl rfl, hshort f hload, fun root hroot => ?_, ?_⟩
    · exact Forest.exists_tree_of_load hload hroot
    · exact List.mem_append_right _ (List.mem_singleton_self _)
  | error failure =>
    obtain ⟨fault, rfl⟩ := Forest.exists_fault_of_load hnull hload
    exact .of_error (Exploring.on_bind_error (Exploring.on_demand _ s) _) ⟨h, .unread fault⟩

variable (hsettings : e.settings.IsSound) (hhost : e.host.Behaves e.settings L)

include hsettings hhost

theorem capture_yields (h : Workable L s) (b : Benchmark) (c : Configuration) :
    (e.capture b c).Yields s (fun r t => Workable L t ∧ t.Holds r.1)
      (fun failure t => Workable L t ∧ Unreported failure) := by
  have hrun := (run_yields hhost hsettings h b c).mono_error fun _ _ hr => hr.imp_right Unreported.unrun
  unfold Explorer.capture
  refine hrun.bind fun ⟨run, m⟩ t ⟨ht, hm, hlogs⟩ => ?_
  refine .after (Explorer.on_remember b c m t) ?_
  exact (loadForest_yields (ht.remember b c hm) hlogs).bind fun _ _ hf => .pure hf

theorem fullForest_yields (h : Workable L s) (b : Benchmark) :
    (e.fullForest b).Yields s (fun r t => Workable L t ∧ t.Holds r.1)
      (fun failure t => Workable L t ∧ Unreported failure) := by
  unfold Explorer.fullForest
  refine (capture_yields hsettings hhost h b e.fullModel).bind fun ⟨f, m⟩ t ⟨ht, hf⟩ => ?_
  dsimp only
  split
  · exact .after (Exploring.on_say _ t) (.pure ⟨ht.still rfl rfl rfl, hf.short, hf.trees, hf.reported⟩)
  · exact .pure ⟨ht, hf⟩

variable (hL : L.TakesReplays e.settings.resultsDir)

include hL

/-- A failure that ends the work on a benchmark either has a verdict or goes through. -/
theorem exploreBenchmark_yields (h : Workable L s) (b : Benchmark) :
    (e.exploreBenchmark b).Yields s (fun _ t => Workable L t) (fun failure t => Workable L t ∧
      ((Explorer.verdict? failure).isSome ∨ e.Escapes t.journal failure)) := by
  unfold Explorer.exploreBenchmark
  refine ((fullForest_yields hsettings hhost h b).mono_error ?_).bind ?_
  · rintro failure t ⟨ht, (⟨fault, code⟩ | ⟨point⟩ | ⟨fault⟩) | ⟨fault⟩⟩
    · exact ⟨ht, .inl rfl⟩
    · exact ⟨ht, .inl rfl⟩
    · exact ⟨ht, .inr (.inl ⟨fault, rfl⟩)⟩
    · exact ⟨ht, .inl rfl⟩
  · rintro ⟨f, m⟩ t ⟨ht, hf⟩
    have hwithin := e.exploreForest_within (p := fun _ _ => True) (b := b) (fun _ => trivial) f
      (Explorer.countedCalls m)
    refine ((exploreForest_yields hsettings hL hhost hf.short ht hf.trees _).along hwithin).mono
      (fun _ _ hu => hu.1) ?_
    rintro failure u ⟨⟨hu, hfault | hlong⟩, hjournal⟩
    · exact ⟨hu, .inr (.inl hfault)⟩
    · exact ⟨hu, .inr (.inr ⟨f, hjournal.subset hf.reported, hlong⟩)⟩

theorem workable_of_closing (h : Workable L s) {b : Benchmark} {report : BenchmarkReport} {last : Bool} {t : Session W}
    (hclosing : e.Closing b s report last t) : Workable L t := by
  have hexplored := exploreBenchmark_yields hsettings hhost hL h b
  cases hclosing with
  | explored hexplore => exact hexplored.ok _ _ hexplore
  | skipped hexplore _ hsay | stopped hexplore _ hsay =>
    exact ((hexplored.error _ _ hexplore).1.say _).lands hsay

theorem exploreAll_yields (h : Workable L s) (done : Keyed String BenchmarkReport) (bs : List Benchmark) :
    (e.exploreAll done bs).Yields s (fun _ t => Workable L t)
      (fun failure t => Workable L t ∧ e.Escapes t.journal failure) := by
  induction bs generalizing s done with
  | nil => exact .pure h
  | cons b rest ih =>
    obtain ⟨answer, t, hpoll, next, u, hround, hnext⟩ := e.exploreAll_round b done rest s
    have ht : Workable L t := (h.poll e).lands hpoll
    refine .of_on hnext ?_
    cases hround with
    | aborted => exact .pure ht
    | fatal hexplore hverdict =>
      obtain ⟨hu, hescapes⟩ := (exploreBenchmark_yields hsettings hhost hL ht b).error _ _ hexplore
      refine .throw ⟨hu, hescapes.resolve_left ?_⟩
      rw [hverdict]
      exact Bool.false_ne_true
    | last hclosing => exact .pure (workable_of_closing hsettings hhost hL ht hclosing)
    | more hclosing => exact ih (workable_of_closing hsettings hhost hL ht hclosing) _

end Benchmarks

/-- An exploration comes to a report unless counters cannot be captured, an executable is missing, or a
forest that a run reported has a root with a token so long that a tree's file cannot be named by it.
Files can be written afterwards as before. -/
theorem explore_contained (e : Explorer W) {L : Layout} {s : Session W} (bs : List Benchmark)
    (hsettings : e.settings.IsSound) (hL : L.TakesReplays e.settings.resultsDir)
    (hhost : e.host.Behaves e.settings L) (hs : Workable L s) :
    let done := (e.explore bs).on s
    Workable L done.2 ∧ ((∃ report, done.1 = .ok report) ∨ ∃ failure, done.1 = .error failure ∧
      ((∃ fault, failure = .counters fault) ∨ (∃ fault, failure = .benchmark fault) ∨
        ∃ f, .reported f ∈ done.2.journal ∧ e.Unstorable f failure)) := by
  intro done
  have hyields : (e.explore bs).Yields s (fun _ t => Workable L t) (fun failure t =>
      Workable L t ∧ ((∃ fault, failure = .counters fault) ∨ e.Escapes t.journal failure)) := by
    unfold Explorer.explore
    cases hprobe : e.host.probe e.settings with
    | error failure =>
      exact .of_error (Exploring.on_bind_error (Exploring.on_demand _ s) _)
        ⟨hs, .inl (hhost.probe failure hprobe)⟩
    | ok =>
      refine .after (Exploring.on_demand _ s) (.after rfl ?_)
      refine ((exploreAll_yields hsettings hhost hL hs [] bs).mono_error ?_).bind
        fun _ _ ht => .after rfl (.pure ht)
      exact fun _ _ ht => ht.imp_right .inr
  rcases hdone : done with ⟨failure | report, t⟩
  · obtain ⟨ht, hfailure⟩ := hyields.error failure t hdone
    exact ⟨ht, .inr ⟨failure, rfl, hfailure⟩⟩
  · exact ⟨hyields.ok report t hdone, .inl ⟨report, rfl⟩⟩

section Vast

/-- The full model's run leaves the report, and nothing is explored by it. -/
theorem on_fullForest_of_reporting {ts : List Tree} {settings : Settings} (hretries : 0 ≤ settings.maxRetries)
    (hts : ∀ t ∈ ts, t.IsShort) {s : Session Unit} (hroot : s.workspace.entries.get? [] = some .directory)
    (b : Benchmark) : ∃ m t, (Explorer.fullForest { host := .reporting ts, settings } b).on s =
      (.ok (Forest.regained ts, m), t) ∧ t.explored = s.explored := by
  let e : Explorer Unit := { host := .reporting ts, settings }
  let run : CompletedRun := ⟨100, "/log", "/events", []⟩
  let m : Measurement := { samples := [1.0] }
  let left : Workspace :=
    { s.workspace with entries := s.workspace.entries.put ["log"] (.file (Forest.dumpText ts).toUTF8 false) }
  let u : Session Unit := ({ s with workspace := left, output := s.output ++ "" }.note
    (.ran b e.fullModel (.ok run))).note (.loaded (.ok m))
  have hattempt : (e.attempt b e.fullModel).on s = (.ok (run, m), u) := rfl
  have hload : Forest.load left "/log" = .ok (Forest.regained ts) := load_of_reporting hroot hts
  exact ⟨m, _, e.on_fullForest_of_attempt hretries rfl hattempt hload, rfl⟩

theorem fullForest_of_reporting {ts : List Tree} {settings : Settings} (hsettings : settings.IsSound)
    (hts : ∀ t ∈ ts, t.IsShort) {s : Session Unit} (h : Workable replayLayout s) (b : Benchmark) :
    (Explorer.fullForest { host := .reporting ts, settings } b).Yields s
      (fun r t => r.1 = Forest.regained ts ∧ Workable replayLayout t ∧ t.explored = s.explored)
      fun _ _ => False := by
  obtain ⟨m, t, hfull, hexplored⟩ := on_fullForest_of_reporting hsettings.retries hts h.fits.root b
  have hyields := fullForest_yields (e := { host := .reporting ts, settings }) hsettings
    (reporting_behaves settings hts) h b
  exact .of_ok hfull ⟨rfl, (hyields.ok _ _ hfull).1, hexplored⟩

/-- The root of a lone tree is all there is to visit, whatever the calls. -/
theorem rootsByCalls_regained_singleton (t : Tree) (counts : MethodId → Option Int) :
    (Forest.regained [t]).rootsByCalls counts = [t.root] := by
  rw [Forest.rootsByCalls, Forest.roots_regained, Forest.kept_singleton]
  exact List.mergeSort_singleton _

/-- A tree whose root has a token of 300 digits. -/
def vastTree : Tree where
  root := ⟨10 ^ 300 - 1, 0⟩
  decisions := [⟨[], ⟨1, 1⟩, 0, none, "", []⟩]
  ordered := by decide
  supported := by decide

theorem vastTree_isShort : vastTree.IsShort := by
  unfold Tree.IsShort
  decide +kernel

theorem maxNameBytes_lt_vastTree (text : String) :
    maxNameBytes < (fileName (.empty vastTree.root) text).utf8ByteSize := by
  have htoken : (Text.hex8 vastTree.root.token).utf8ByteSize = 250 := by decide +kernel
  have hmark : "replay-".utf8ByteSize = 7 := by decide
  simp only [fileName, Replay.nameFor, String.utf8ByteSize_append, Tree.empty, htoken, hmark, maxNameBytes]
  omega

def vast : Benchmark := { name := "vast", path := "/vast" }

def vastExplorer : Explorer Unit := { host := .reporting [vastTree], settings := {} }

theorem vastExplorer_isSound : vastExplorer.settings.IsSound where
  retries := by decide
  resamples := by decide
  seed := by decide
  threshold := ⟨_, rfl⟩
  sigmas := ⟨_, rfl⟩

theorem workable_of_vast : Workable replayLayout (Session.fresh () bareFiles none) where
  fits := bareFiles_fits
  carries := nofun
  counts := nofun

/-- There is room for files, and nothing is explored yet. -/
def Unexplored (s : Session Unit) : Prop := Workable replayLayout s ∧ s.explored = []

theorem say_of_vast {s : Session Unit} (h : Unexplored s) (text : String)
    {fail : Failure → Session Unit → Prop} : (say text).Yields s (fun _ t => Unexplored t) fail :=
  .of_ok (Exploring.on_say text s) ⟨h.1.still rfl rfl rfl, h.2⟩

theorem poll_of_vast {s : Session Unit} (h : Unexplored s) {fail : Failure → Session Unit → Prop} :
    vastExplorer.poll.Yields s (fun answer t => answer = false ∧ Unexplored t) fail :=
  .of_ok (vastExplorer.on_poll s) ⟨rfl, h.1.still rfl rfl rfl, h.2⟩

/-- The one root of the forest is visited, and its empty tree cannot be written out. -/
theorem exploreBenchmark_of_vast {s : Session Unit} (h : Unexplored s) :
    (vastExplorer.exploreBenchmark vast).Yields s (fun _ _ => False)
      fun failure _ => ∃ path, failure = .storage ⟨.nameTooLong, path⟩ := by
  have hts : ∀ t ∈ [vastTree], t.IsShort := List.forall_mem_singleton.2 vastTree_isShort
  have htree : (Forest.regained [vastTree]).tree vastTree.bare.root = .ok vastTree.bare :=
    Forest.tree_regained (t := vastTree) (List.mem_singleton_self _) List.count_singleton_self
  have hempty : (Forest.regained [vastTree]).Offers (.empty vastTree.root) := ⟨vastTree.bare, 0, htree, rfl⟩
  obtain ⟨text, htext⟩ := (Forest.isShort_regained hts).exists_content hempty
  unfold Explorer.exploreBenchmark
  refine ((fullForest_of_reporting vastExplorer_isSound hts h.1 vast).mono_error
    fun _ _ hr => hr.elim).bind ?_
  rintro ⟨f, m⟩ t ⟨rfl, ht, hexplored⟩
  unfold Explorer.exploreForest
  dsimp only
  rw [rootsByCalls_regained_singleton]
  unfold Explorer.exploreRoots
  refine (say_of_vast ⟨ht, hexplored.trans h.2⟩ _).bind fun _ v hv => ?_
  refine ((poll_of_vast hv).bind ?_).bind fun _ _ => False.elim
  rintro _ u ⟨rfl, hu, hnone⟩
  have hnew (d : Decision) : d.context ∉ u.explored := by
    rw [hnone]
    exact List.not_mem_nil
  have hroot := exploreRoot_of_long (e := vastExplorer) (b := vast) replayLayout_takesReplays hu htree
    (List.mem_cons_self ..) (hnew _) htext (maxNameBytes_lt_vastTree text)
  exact .of_error (Exploring.on_bind_error hroot _) ⟨_, rfl⟩

/-- All is as an exploration needs it, and yet it comes to no report. -/
theorem explore_vast_escapes :
    vastExplorer.settings.IsSound ∧ replayLayout.TakesReplays vastExplorer.settings.resultsDir ∧
      vastExplorer.host.Behaves vastExplorer.settings replayLayout ∧
      Workable replayLayout (Session.fresh () bareFiles none) ∧
      ∃ path, ((vastExplorer.explore [vast]).on (Session.fresh () bareFiles none)).1 =
        .error (.storage ⟨.nameTooLong, path⟩) := by
  have hts : ∀ t ∈ [vastTree], t.IsShort := List.forall_mem_singleton.2 vastTree_isShort
  refine ⟨vastExplorer_isSound, replayLayout_takesReplays, reporting_behaves _ hts, workable_of_vast, ?_⟩
  have hall : (vastExplorer.exploreAll [] [vast]).Yields (Session.fresh () bareFiles none)
      (fun _ _ => False) fun failure _ => ∃ path, failure = .storage ⟨.nameTooLong, path⟩ := by
    unfold Explorer.exploreAll
    refine (poll_of_vast ⟨workable_of_vast, rfl⟩).bind ?_
    rintro _ s ⟨rfl, hs⟩
    refine (exploreBenchmark_of_vast hs).caught_bind (fun _ _ => False.elim) ?_
    rintro _ t ⟨path, rfl⟩
    exact .throw ⟨path, rfl⟩
  have hexplore : (vastExplorer.explore [vast]).Yields (Session.fresh () bareFiles none)
      (fun _ _ => False) fun failure _ => ∃ path, failure = .storage ⟨.nameTooLong, path⟩ := by
    unfold Explorer.explore
    exact .after rfl (.after rfl (hall.bind fun _ _ => False.elim))
  rcases hdone : (vastExplorer.explore [vast]).on (Session.fresh () bareFiles none) with ⟨failure | report, t⟩
  · obtain ⟨path, rfl⟩ := hexplore.error failure t hdone
    exact ⟨path, rfl⟩
  · exact (hexplore.ok report t hdone).elim

theorem explore_vast_contained :
    vastExplorer.settings.IsSound ∧ replayLayout.TakesReplays vastExplorer.settings.resultsDir ∧
      vastExplorer.host.Behaves vastExplorer.settings replayLayout ∧
      Workable replayLayout (Session.fresh () bareFiles none) ∧
      let done := (vastExplorer.explore [vast]).on (Session.fresh () bareFiles none)
      Workable replayLayout done.2 ∧ ((∃ report, done.1 = .ok report) ∨ ∃ failure, done.1 = .error failure ∧
        ((∃ fault, failure = .counters fault) ∨ (∃ fault, failure = .benchmark fault) ∨
          ∃ f, .reported f ∈ done.2.journal ∧ vastExplorer.Unstorable f failure)) := by
  have hbehaves : vastExplorer.host.Behaves vastExplorer.settings replayLayout :=
    reporting_behaves _ (List.forall_mem_singleton.2 vastTree_isShort)
  exact ⟨vastExplorer_isSound, replayLayout_takesReplays, hbehaves, workable_of_vast,
    explore_contained vastExplorer [vast] vastExplorer_isSound replayLayout_takesReplays hbehaves
      workable_of_vast⟩

end Vast

end Exploration

end InlineImpact
