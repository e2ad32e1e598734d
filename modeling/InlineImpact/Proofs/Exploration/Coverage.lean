import InlineImpact.Proofs.Exploration.LastAttempt
import InlineImpact.Proofs.Exploration.Survey

/-!
How the report of an exhausted root counts the decisions of its tree. The first ones are measured or
skipped, one after the other, and the others are given up because a run failed. Of those that are given up
the explored ones count as nothing, neither as skipped nor as missing: the three counts add up to the number
of decisions exactly if there are none of these. `explore_covers` has this for every root that an exploration
reports.
-/
namespace InlineImpact.Exploration

open Exploring (Yields)

variable {W : Type}

namespace RootReport

/-- The decisions that the root was given up on: those after the measured and the skipped ones. -/
def rest (r : RootReport) (ds : List Decision) : List Decision := ds.drop (r.pairs + r.skipped)

/-- What the report of an exhausted root tells of its decisions. -/
structure Covers (r : RootReport) (ds : List Decision) (explored : List Decision.Context) : Prop where
  passed : r.pairs + r.skipped ≤ ds.length
  missing : r.missing = (r.rest ds).countP fun d => d.context ∉ explored
  /-- Decisions are given up only because of a run that failed. -/
  reason : r.rest ds = [] ∨ ∃ fault : RunFault, r.reason = fault.message

/-- From the first report to the second all but some last decisions are passed, and of the last ones those
that are not explored count as missing. -/
structure Leaves (report r : RootReport) (ds left : List Decision) (explored : List Decision.Context) :
    Prop where
  suffix : left <:+ ds
  passed : r.pairs + r.skipped + left.length = report.pairs + report.skipped + ds.length
  missing : r.missing = report.missing + left.countP fun d => d.context ∉ explored
  reason : left = [] ∨ ∃ fault : RunFault, r.reason = fault.message

/-- If the second report is that of an exhausted root, then the decisions are accounted for. -/
def Closes (report : RootReport) (ds : List Decision) (r : RootReport) (t : Session W) : Prop :=
  r.state = .exhausted → ∃ left, report.Leaves r ds left t.explored

section Counting

variable {report next r : RootReport} {d : Decision} {ds left : List Decision}
  {explored : List Decision.Context} {t : Session W}

theorem length_rest (h : r.pairs + r.skipped ≤ ds.length) :
    r.pairs + r.skipped + (r.rest ds).length = ds.length := by
  rw [rest, List.length_drop]
  omega

/-- Nothing is lost: what the counts leave out is explored. -/
theorem Covers.total (h : r.Covers ds explored) :
    r.pairs + r.skipped + r.missing + (r.rest ds).countP (fun d => d.context ∈ explored) = ds.length := by
  have hsplit := List.length_eq_countP_add_countP (fun d : Decision => d.context ∈ explored) (l := r.rest ds)
  have hmissing : r.missing = (r.rest ds).countP fun d => ¬d.context ∈ explored := h.missing
  have hlength := length_rest h.passed
  simp only [decide_eq_true_eq] at hsplit
  omega

/-- The counts add up exactly if no decision was given up that is explored. -/
theorem Covers.complete_iff (h : r.Covers ds explored) :
    r.pairs + r.skipped + r.missing = ds.length ↔ ∀ d ∈ r.rest ds, d.context ∉ explored := by
  have htotal := h.total
  have hnone : (r.rest ds).countP (fun d => d.context ∈ explored) = 0 ↔ ∀ d ∈ r.rest ds, d.context ∉ explored := by
    simp [List.countP_eq_zero]
  rw [← hnone]
  omega

theorem Leaves.covers (h : report.Leaves r ds left explored) (hpairs : report.pairs = 0)
    (hskipped : report.skipped = 0) (hmissing : report.missing = 0) : r.Covers ds explored := by
  have hlength := h.passed
  rw [hpairs, hskipped, Nat.zero_add] at hlength
  have hrest : r.rest ds = left := by
    rw [rest, List.suffix_iff_eq_drop.1 h.suffix]
    congr 1
    omega
  refine ⟨by omega, ?_, hrest ▸ h.reason⟩
  rw [hrest, h.missing, hmissing, Nat.zero_add]

theorem Closes.of_state (h : r.state ≠ .exhausted) : report.Closes ds r t := fun hr => (h hr).elim

/-- One decision is passed, be it measured or skipped. -/
theorem Closes.cons (h : next.Closes ds r t)
    (hpassed : next.pairs + next.skipped = report.pairs + report.skipped + 1)
    (hmissing : next.missing = report.missing) : report.Closes (d :: ds) r t := by
  intro hr
  obtain ⟨left, hleft⟩ := h hr
  have hlength := hleft.passed
  refine ⟨left, hleft.suffix.trans (List.suffix_cons d ds), ?_, hmissing ▸ hleft.missing, hleft.reason⟩
  rw [List.length_cons]
  omega

end Counting

end RootReport

section Root

variable {e : Explorer W} {b : Benchmark} {f : Forest} {report : RootReport} {ds : List Decision} {s : Session W}

theorem length_lostRows (root : MethodId) (explored : List Decision.Context) (ds : List Decision) :
    (lostRows b root explored ds).length = ds.countP fun d => d.context ∉ explored := by
  rw [lostRows, List.length_map, List.countP_eq_length_filter]
  simp

/-- All of the decisions are given up. -/
theorem giveUp_leaves (fault : RunFault) :
    (Explorer.giveUp b ds report fault).Yields s
      (fun r t => t.explored = s.explored ∧ r.state = .exhausted ∧ report.Leaves r ds ds t.explored)
      fun _ _ => True := by
  unfold Explorer.giveUp
  refine .after (Exploring.on_say _ s) ?_
  refine .bind ((emitMissing_yields_lost b report.root ds _).mono_error fun _ _ _ => trivial) ?_
  rintro n t ⟨hexplored, -, hn⟩
  refine .pure ⟨hexplored, rfl, List.suffix_refl ds, rfl, ?_, .inr ⟨fault, rfl⟩⟩
  show report.missing + n = _
  rw [hn, length_lostRows, hexplored]

theorem giveUp_closes (fault : RunFault) :
    (Explorer.giveUp b ds report fault).Yields s (report.Closes ds) fun _ _ => True :=
  (giveUp_leaves fault).mono (fun _ _ h _ => ⟨ds, h.2.2⟩) fun _ _ h => h

theorem cutShort_closes (failure : Failure) :
    (Explorer.cutShort b ds report failure).Yields s (report.Closes ds) fun _ _ => True := by
  cases failure with
  | aborted point => exact .pure (.of_state (by simp))
  | run fault code => exact giveUp_closes fault
  | _ => exact .throw trivial

/-- Growing a tree. By induction on the decisions that are left: each of them is passed, or the root is given up
on it and on all that follow. -/
theorem grow_closes (e : Explorer W) (b : Benchmark) (f : Forest) (tree : Tree) (known : Option Measurement)
    (report : RootReport) (ds : List Decision) (s : Session W) :
    (e.grow b f tree known report ds).Yields s (report.Closes ds) fun _ _ => True := by
  induction ds generalizing tree known report s with
  | nil => exact .pure fun _ => ⟨[], List.suffix_refl [], rfl, rfl, .inl rfl⟩
  | cons d rest ih =>
    obtain ⟨answer, t, -, next, u, hturn, hnext⟩ := e.grow_turn b f report d rest tree known s
    refine .of_on hnext ?_
    cases hturn with
    | aborted => exact .pure (.of_state (by simp))
    | refused _ => exact .throw trivial
    | passed _ _ =>
      exact (ih _ none { report with skipped := report.skipped + 1 } t).mono (fun _ _ h => h.cons rfl rfl)
        fun _ _ h => h
    | unpaired _ _ _ => exact cutShort_closes _
    | @paired _ _ child parentRun childRun _ _ _ =>
      obtain ⟨next, v, hrecording, hnext⟩ := e.record_recording b f report d rest child parentRun childRun u
      refine .of_on hnext ?_
      cases hrecording with
      | unestimated _ => exact .throw trivial
      | unwritten _ _ => exact .throw trivial
      | written _ _ _ =>
        exact (ih child _ { report with pairs := report.pairs + 1 } v).mono
          (fun _ _ h => h.cons (Nat.succ_add report.pairs report.skipped) rfl) fun _ _ h => h

theorem exploreTree_closes (e : Explorer W) (b : Benchmark) (f : Forest) (full : Tree) (s : Session W) :
    (e.exploreTree b f full).Yields s (RootReport.Closes { root := full.root, state := .measuring } full.decisions)
      fun _ _ => True := by
  obtain ⟨next, t, hentry, hnext⟩ := e.exploreTree_entry b f full s
  refine .of_on hnext ?_
  cases hentry with
  | unmeasured _ => exact cutShort_closes _
  | unjudged _ _ => exact .throw trivial
  | shortCircuited _ _ _ => exact .pure (.of_state (by simp))
  | grown _ _ => exact grow_closes e b f _ _ _ full.decisions t

/-- If not even the empty and the full tree can be measured, then no decision counts as skipped, and those that
are explored count as nothing. -/
theorem exploreTree_of_failed {full : Tree} {fault : RunFault} {code : Option Int} {t : Session W}
    (h : (e.measureEnds b full).on s = (.error (.run fault code), t)) :
    (e.exploreTree b f full).Yields s (fun r _ => r.state = .exhausted ∧ r.pairs = 0 ∧ r.skipped = 0 ∧
      r.missing + full.decisions.countP (fun d => d.context ∈ s.explored) = full.size) fun _ _ => True := by
  have hexplored : t.explored = s.explored := Quiet.run_explored ((e.measureEnds_within b full).steps h)
  refine .of_on (e.on_exploreTree_of_error h) ((giveUp_leaves fault).mono ?_ fun _ _ h => h)
  rintro r u ⟨hu, hstate, hleaves⟩
  have hpassed : r.pairs + r.skipped + full.decisions.length = 0 + 0 + full.decisions.length := hleaves.passed
  obtain ⟨hpairs, hskipped⟩ : r.pairs = 0 ∧ r.skipped = 0 := by omega
  have hrest : r.rest full.decisions = full.decisions := by
    rw [RootReport.rest, hpairs, hskipped]
    exact List.drop_zero
  have htotal := (hleaves.covers rfl rfl rfl).total
  rw [hrest, hu, hexplored] at htotal
  refine ⟨hstate, hpairs, hskipped, ?_⟩
  rw [Tree.size]
  omega

/-- Whatever the visit of a root meets with, its report accounts for the decisions if the root is exhausted. -/
theorem exploreRoot_covers (e : Explorer W) (b : Benchmark) (f : Forest) (root : MethodId) (s : Session W) :
    (e.exploreRoot b f root).Yields s
      (fun r t => r.state = .exhausted → r.Covers (f.decisionsOf root) t.explored) fun _ _ => True := by
  have hds {full : Tree} (hf : f.tree root = .ok full) : f.decisionsOf root = full.decisions := by
    rw [Forest.decisionsOf, hf]
  apply Explorer.Opening.yields
  case hrefused => exact fun _ _ => trivial
  case hbare =>
    intro full _ _ hr
    cases hr
  case hexplored =>
    intro full hf _ _ _
    have hnone : RootReport.rest ⟨root, .exhausted, 0, full.size, 0, "all decisions already explored"⟩
        full.decisions = [] := by
      rw [RootReport.rest, Nat.zero_add]
      exact List.drop_length
    rw [hds hf]
    exact ⟨(Nat.zero_add _).le, by rw [hnone]; rfl, .inl hnone⟩
  case hentered =>
    intro full hf _
    rw [hds hf]
    refine (exploreTree_closes e b f full s).mono (fun r t h hr => ?_) fun _ _ h => h
    obtain ⟨left, hleft⟩ := h hr
    exact hleft.covers rfl rfl rfl

end Root

section Reports

variable {e : Explorer W} {b : Benchmark} {f : Forest} {r : RootReport} {s s' t t' : Session W}

/-- The report is what a visit of a root of the forest came to, between the sessions, and it accounts for the
decisions by what was explored when the visit ended. -/
def Explorer.Accounted (e : Explorer W) (b : Benchmark) (f : Forest) (s t : Session W) (r : RootReport) : Prop :=
  ∃ u v, s.journal <+: u.journal ∧ v.journal <+: t.journal ∧ (e.exploreRoot b f r.root).on u = (.ok r, v) ∧
    r.Covers (f.decisionsOf r.root) v.explored

theorem Explorer.Accounted.widen (h : e.Accounted b f s t r) (hs : s'.journal <+: s.journal)
    (ht : t.journal <+: t'.journal) : e.Accounted b f s' t' r := by
  obtain ⟨u, v, hu, hv, hr⟩ := h
  exact ⟨u, v, hs.trans hu, hv.trans ht, hr⟩

theorem exploreRoot_accounted (root : MethodId) : (e.exploreRoot b f root).Yields s
    (fun r t => s.journal <+: t.journal ∧ (r.state = .exhausted → e.Accounted b f s t r)) fun _ _ => True := by
  refine ⟨fun r t hon => ?_, fun _ _ _ => trivial⟩
  have hdid : (e.exploreRoot b f root).Yields s (fun r t => ∃ J, e.Visited b f root s J r t) _ :=
    exploreRoot_did root
  obtain ⟨J, hJ⟩ := hdid.ok r t hon
  obtain rfl := hJ.root
  refine ⟨⟨J, hJ.did.journal.symm⟩, fun hr => ⟨s, t, List.prefix_refl _, List.prefix_refl _, hon, ?_⟩⟩
  exact (exploreRoot_covers e b f r.root s).ok r t hon hr

/-- Roots that are never begun are not exhausted. -/
theorem exploreRoots_accounted (roots : List MethodId) : (e.exploreRoots b f roots).Yields s
    (fun rs t => s.journal <+: t.journal ∧ ∀ r ∈ rs, r.state = .exhausted → e.Accounted b f s t r)
    fun _ _ => True := by
  induction roots generalizing s with
  | nil => exact .pure ⟨List.prefix_refl _, by simp⟩
  | cons root rest ih =>
    have hwaiting {u : Session W} : ∀ r ∈ rest.map Explorer.queued, r.state = .exhausted → e.Accounted b f s u r :=
      List.forall_mem_map.2 fun _ _ hr => by cases hr
    obtain ⟨answer, t, hpoll, next, u, hleg, hnext⟩ := e.exploreRoots_leg b f root rest s
    have ht : s.journal <+: t.journal := Quiet.run_journal_le (e.poll_within.steps hpoll)
    have hroot := exploreRoot_accounted (e := e) (b := b) (f := f) (s := t) root
    refine .of_on hnext ?_
    cases hleg with
    | aborted => exact .pure ⟨ht, List.forall_mem_cons.2 ⟨fun hr => (by cases hr), hwaiting⟩⟩
    | failed => exact .throw trivial
    | cut hvisit =>
      obtain ⟨hu, hr⟩ := hroot.lands hvisit
      refine .pure ⟨ht.trans hu, List.forall_mem_cons.2 ⟨fun hstate => ?_, hwaiting⟩⟩
      exact (hr hstate).widen ht (List.prefix_refl _)
    | visited hvisit =>
      obtain ⟨hu, hr⟩ := hroot.lands hvisit
      refine ih.bind ?_
      rintro rs v ⟨hv, hrs⟩
      refine .pure ⟨ht.trans (hu.trans hv), ?_⟩
      exact List.forall_mem_cons.2 ⟨fun hstate => (hr hstate).widen ht hv, fun r' hr' hstate =>
        (hrs r' hr' hstate).widen (ht.trans hu) (List.prefix_refl _)⟩

/-- The report's exhausted roots are roots of the forest that the benchmark's full model reported, and each
of them is accounted for. -/
def Explorer.Explained (e : Explorer W) (b : Benchmark) (s t : Session W) (report : BenchmarkReport) : Prop :=
  report.benchmark = b.name ∧ ∀ r ∈ report.roots, r.state = .exhausted →
    ∃ v : Survey, v.benchmark = b ∧ e.Found t.journal v ∧ e.Accounted b v.forest s t r

theorem Explorer.Explained.widen {report : BenchmarkReport} (h : e.Explained b s t report)
    (hs : s'.journal <+: s.journal) (ht : t.journal <+: t'.journal) : e.Explained b s' t' report := by
  refine ⟨h.1, fun r hr hstate => ?_⟩
  obtain ⟨v, hv, hfound, haccounted⟩ := h.2 r hr hstate
  obtain ⟨K, hK⟩ := ht
  exact ⟨v, hv, hK ▸ found_append hfound K, haccounted.widen hs ⟨K, hK⟩⟩

theorem exploreBenchmark_explained : (e.exploreBenchmark b).Yields s
    (fun report t => e.Explained b s t report) fun _ _ => True := by
  unfold Explorer.exploreBenchmark
  refine (fullForest_did.mono_error fun _ _ _ => trivial).bind ?_
  rintro ⟨f, m⟩ t ⟨J, hJ, hfound⟩
  unfold Explorer.exploreForest
  refine .after (Exploring.on_say _ t) ((exploreRoots_accounted _).bind ?_)
  rintro rs u ⟨hu, hrs⟩
  have hsurvey : e.Found u.journal ⟨b, f, m⟩ := by
    obtain ⟨K, hK⟩ := hu
    rw [← hK, show Session.journal { t with output := _ } = t.journal from rfl, hJ.journal]
    exact found_append (found_of_append hfound s.journal) K
  refine .pure ⟨rfl, List.forall_mem_append.2 ⟨List.forall_mem_map.2 fun _ _ hr => (by cases hr), ?_⟩⟩
  intro r hr hstate
  exact ⟨⟨b, f, m⟩, rfl, hsurvey, (hrs r hr hstate).widen ⟨J, hJ.journal.symm⟩ (List.prefix_refl _)⟩

theorem explained_of_closing {report : BenchmarkReport} {last : Bool} (h : e.Closing b s report last t) :
    e.Explained b s t report := by
  cases h with
  | explored hexplore => exact exploreBenchmark_explained.lands hexplore
  | skipped | stopped => exact ⟨rfl, fun _ hr => (List.not_mem_nil hr).elim⟩

/-- One benchmark after the other. By induction on those that are left; the reports so far stay as they are. -/
theorem exploreAll_explained (done : Keyed String BenchmarkReport) (bs : List Benchmark) :
    (e.exploreAll done bs).Yields s
      (fun out t => s.journal <+: t.journal ∧ ∀ p ∈ out.1, p ∈ done ∨ ∃ b ∈ bs, e.Explained b s t p.2)
      fun _ _ => True := by
  induction bs generalizing s done with
  | nil => exact .pure ⟨List.prefix_refl _, fun _ => .inl⟩
  | cons b rest ih =>
    obtain ⟨answer, t, hpoll, next, u, hround, hnext⟩ := e.exploreAll_round b done rest s
    have ht : s.journal <+: t.journal := Quiet.run_journal_le (e.poll_within.steps hpoll)
    have hclosed {r : BenchmarkReport} {last : Bool} (hclosing : e.Closing b t r last u) : t.journal <+: u.journal :=
      Step.run_journal_le (p := fun _ _ => True) (hclosing.steps fun _ => trivial)
    have hput {r : BenchmarkReport} {last : Bool} (hclosing : e.Closing b t r last u) {v : Session W}
        (hv : u.journal <+: v.journal) :
        ∀ p ∈ done.put b.name r, p ∈ done ∨ ∃ b' ∈ b :: rest, e.Explained b' s v p.2 := by
      refine fun p hp => (Keyed.mem_put hp).symm.imp_right ?_
      rintro rfl
      exact ⟨b, .head _, (explained_of_closing hclosing).widen ht hv⟩
    refine .of_on hnext ?_
    cases hround with
    | aborted => exact .pure ⟨ht, fun _ => .inl⟩
    | fatal => exact .throw trivial
    | last hclosing => exact .pure ⟨ht.trans (hclosed hclosing), hput hclosing (List.prefix_refl _)⟩
    | more hclosing =>
      have hu : s.journal <+: u.journal := ht.trans (hclosed hclosing)
      refine (ih _).mono ?_ fun _ _ h => h
      rintro out v ⟨hv, hout⟩
      refine ⟨hu.trans hv, fun p hp => ?_⟩
      rcases hout p hp with hp | ⟨b', hb', hp⟩
      · exact hput hclosing hv p hp
      · exact .inr ⟨b', .tail _ hb', hp.widen hu (List.prefix_refl _)⟩

/-- Take any exploration, whatever decisions are measured or skipped in it and whatever runs fail. The report of
each exhausted root accounts for the decisions of its tree: as many as were measured or skipped are the first
ones, and the others were given up because a run failed. Of these exactly those count as missing that were not
explored when the visit ended, so the three counts add up to the number of decisions if and only if no decision
was given up that was explored. -/
theorem explore_covers (e : Explorer W) (bs : List Benchmark) (s : Session W) :
    (e.explore bs).Yields s (fun report t => ∀ br ∈ report.benchmarks, ∀ r ∈ br.roots, r.state = .exhausted →
      ∃ v : Survey, v.benchmark ∈ bs ∧ v.benchmark.name = br.benchmark ∧ e.Found t.journal v ∧ ∃ u u',
        s.journal <+: u.journal ∧ u'.journal <+: t.journal ∧
        (e.exploreRoot v.benchmark v.forest r.root).on u = (.ok r, u') ∧
        let ds := v.forest.decisionsOf r.root
        r.Covers ds u'.explored ∧
          (r.pairs + r.skipped + r.missing = ds.length ↔ ∀ d ∈ r.rest ds, d.context ∉ u'.explored))
      fun _ _ => True := by
  unfold Explorer.explore
  refine .demand_bind (fun _ _ => trivial) fun _ _ => .after rfl ((exploreAll_explained [] bs).bind ?_)
  rintro out t ⟨-, hout⟩
  refine .after rfl (.pure fun br hbr r hr hstate => ?_)
  obtain ⟨p, hp, rfl⟩ := List.mem_map.1 hbr
  obtain ⟨b, hb, hname, hroots⟩ := (hout p hp).resolve_left List.not_mem_nil
  obtain ⟨v, rfl, hfound, u, u', hu, hu', hon, hcovers⟩ := hroots r hr hstate
  exact ⟨v, hb, hname.symm, hfound, u, u', hu, hu', hon, hcovers, hcovers.complete_iff⟩

end Reports

section Omitted

/-- A root with the decision of `Script.full` and another one. -/
def twofold : Tree where
  root := ⟨1, 0⟩
  decisions := [⟨[], ⟨1, 1⟩, 0, none, "", []⟩, ⟨[], ⟨2, 2⟩, 0, none, "", []⟩]
  ordered := by decide
  supported := by decide

/-- An estimate for the decision of `Script.full` was handed out before. -/
def halfway : Session Nat :=
  { Session.fresh 0 bareFiles none with
    explored := Script.full.decisions.map Decision.context
    journal := Script.full.decisions.map fun d =>
      .emitted ⟨early.name, Script.full.root, d, some ⟨none, none, 0, 0, none, .lowSamples⟩⟩ }

/-- No run comes to anything. The root ends exhausted, and only one of its two decisions is counted. -/
theorem exploreRoot_omits : ∃ r t,
    (hopeless.explorer.exploreRoot late (Forest.regained [twofold]) twofold.root).on halfway = (.ok r, t) ∧
      r.state = .exhausted ∧ ((Forest.regained [twofold]).decisionsOf twofold.root).length = 2 ∧
      r.pairs + r.skipped + r.missing = 1 := by
  have htree : (Forest.regained [twofold]).tree twofold.root = .ok twofold.bare :=
    Forest.tree_regained (t := twofold) (List.mem_singleton_self _) List.count_singleton_self
  have hgo : ∀ n ≤ 0 + 2, hopeless.abort n = false := by decide
  obtain ⟨c, t, hfailed, hmeasure⟩ := hopeless.on_measureTree_failing (fun _ => rfl) (s := halfway)
    bareFiles_fits late 0 rfl hgo
  obtain ⟨d, d', hds, hd, hd'⟩ : ∃ d d', twofold.bare.decisions = [d, d'] ∧ d.context ∈ t.explored ∧
      d'.context ∉ t.explored := by
    rw [hfailed.explored, show halfway.explored = Script.full.decisions.map Decision.context from rfl]
    exact ⟨_, _, rfl, by decide, by decide⟩
  have hmissing (u : Session Nat) (hdataset : u.dataset = none) (hexplored : u.explored = t.explored) :
      ∃ v, (Explorer.emitMissing late twofold.root twofold.bare.decisions).on u = (.ok 1, v) := by
    have hfirst : (isExplored d.context).on u = (.ok true, u) := by
      rw [Exploring.on_isExplored, hexplored, List.contains_eq_mem, decide_eq_true hd]
    have hsecond : (isExplored d'.context).on u = (.ok false, u) := by
      rw [Exploring.on_isExplored, hexplored, List.contains_eq_mem, decide_eq_false hd']
    rw [hds, Explorer.emitMissing, Exploring.on_bind_ok hfirst, if_pos rfl, Explorer.emitMissing,
      Exploring.on_bind_ok hsecond]
    exact ⟨_, Exploring.on_bind_ok (Script.on_emit_unrecorded hdataset _) _⟩
  let note := "  " ++ twofold.root.text ++ ": giving up on branch after retries: " ++ "crashed" ++ "\n"
  obtain ⟨v, hv⟩ := hmissing { t with output := t.output ++ note } hfailed.dataset rfl
  have hends : (hopeless.explorer.measureEnds late twofold.bare).on halfway =
      (.error (.run (.reported "crashed") none), t) := Exploring.on_bind_error hmeasure _
  refine ⟨⟨twofold.root, .exhausted, 0, 0, 1, "crashed"⟩, v, ?_, rfl, ?_, rfl⟩
  · have hleft : ∃ d ∈ twofold.bare.decisions, d.context ∉ halfway.explored :=
      ⟨d', by simp [hds], hfailed.explored ▸ hd'⟩
    rw [hopeless.explorer.on_exploreRoot_of_left htree hleft, hopeless.explorer.on_exploreTree_of_error hends,
      Explorer.cutShort, Explorer.giveUp]
    exact (Exploring.on_bind_ok (Exploring.on_say note t) _).trans (Exploring.on_bind_ok hv _)
  · rw [Forest.decisionsOf, htree]
    rfl

end Omitted

end InlineImpact.Exploration
