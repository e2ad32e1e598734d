import InlineImpact.Proofs.Exploration.Containment
import InlineImpact.Proofs.Exploration.Enclosure
import InlineImpact.Proofs.Exploration.Ledger
import InlineImpact.Proofs.Replay.Archive

/-!
Two hosts that answer alike, except when the trees of one root of one benchmark are replayed. Whatever they
answer there, failures included, the explorations go on side by side: all other roots get the same rows, in
the same order, and the same reports.
-/
namespace InlineImpact.Exploration

open Enclave

variable {W α : Type}

section Reports

/-- The rows that were handed out for all but this root of this benchmark. -/
def Journal.rowsBut (J : List Event) (benchmark : String) (root : MethodId) : List Dataset.Row :=
  (Journal.rows J).filter fun row => ¬(row.benchmark = benchmark ∧ row.root = root)

/-- The report, or a blank one if it is about this root of this benchmark. -/
def RootReport.redact (benchmark : String) (root : MethodId) (owner : String) (r : RootReport) : RootReport :=
  if owner = benchmark ∧ r.root = root then { root } else r

/-- The report without what it tells of this root of this benchmark. -/
def BenchmarkReport.redact (benchmark : String) (root : MethodId) (r : BenchmarkReport) : BenchmarkReport :=
  { r with roots := r.roots.map (RootReport.redact benchmark root r.benchmark) }

/-- What an exploration of several benchmarks has to report so far, without what it tells of the root. -/
def redactAll (benchmark : String) (root : MethodId) (done : Keyed String BenchmarkReport) :
    Keyed String BenchmarkReport :=
  done.map (Prod.map id (BenchmarkReport.redact benchmark root))

variable {E : Enclave} {e : Explorer W} {h' : Host W} {p q : Regime} (hp : e.host.Obeys p) (hq : h'.Obeys q)
  {b : Benchmark} {f : Forest}

include hp

/-- The visit of the root ends the exploration, or is reported. -/
theorem exploreRoot_lost_or (root : MethodId) (s : Session W) :
    Lost Never ((e.exploreRoot b f root).on s).1 ∨
      ∃ r, ((e.exploreRoot b f root).on s).1 = .ok r ∧ r.root = root := by
  rcases ho : (e.exploreRoot b f root).on s with ⟨failure | r, t⟩
  · exact .inl (((exploreRoot_did root).error failure t ho).2 hp.blamesNoForest).terminal
  · obtain ⟨J, hvisit⟩ := (exploreRoot_did root).ok r t ho
    exact .inr ⟨r, rfl, hvisit.root⟩

include hq

theorem exploreRoot_redacted {root : MethodId}
    (h : E.Excludes e p q b f root ∨ E.Encloses e b f root) :
    E.Abreast (fun r => r.isAborted = true)
      (fun r r' => r.redact E.benchmark E.root b.name = r'.redact E.benchmark E.root b.name)
      (e.exploreRoot b f root) ((e.withHost h').exploreRoot b f root) := by
  rcases h with h | h
  · exact (exploreRoot_abreast hp hq h).mono fun _ _ => congrArg _
  · intro s t hst
    have hs := Enclave.Alike.of_steps (exploreRoot_enclosed h s)
    have hother : E.Encloses (e.withHost h') b f root := ⟨h.owns, h.contexts, h.place⟩
    have ht := Enclave.Alike.of_steps (exploreRoot_enclosed hother t)
    have hx := exploreRoot_lost_or hp (b := b) (f := f) root s
    have hy := exploreRoot_lost_or (e := e.withHost h') hq (b := b) (f := f) root t
    refine hx.imp Lost.of_never fun ⟨r, hr, hroot⟩ => hy.imp Lost.of_never fun ⟨r', hr', hroot'⟩ => ?_
    refine ⟨(hs.symm.trans hst).trans ht, ?_⟩
    rw [hr, hr']
    refine .ok ?_
    rw [RootReport.redact, RootReport.redact, if_pos ⟨h.place.1, hroot.trans h.place.2⟩,
      if_pos ⟨h.place.1, hroot'.trans h.place.2⟩]

theorem exploreRoots_redacted {roots : List MethodId}
    (h : ∀ root ∈ roots, E.Excludes e p q b f root ∨ E.Encloses e b f root) :
    E.Abreast (fun rs => rs.any RootReport.isAborted = true)
      (fun rs rs' => rs.map (RootReport.redact E.benchmark E.root b.name) =
        rs'.map (RootReport.redact E.benchmark E.root b.name))
      (e.exploreRoots b f roots) ((e.withHost h').exploreRoots b f roots) := by
  induction roots with
  | nil => exact .pure rfl
  | cons root rest ih =>
    obtain ⟨hroot, hrest⟩ := List.forall_mem_cons.1 h
    unfold Explorer.exploreRoots
    refine poll_abreast e (e.withHost h') ?_ fun u => ⟨rfl, rfl⟩
    refine (exploreRoot_redacted hp hq hroot).bind (fun r r' hr hgo hgo' => ?_) fun r u hr => ?_
    · rw [if_neg hgo, if_neg hgo']
      refine (ih hrest).bind (fun rs rs' hrs _ _ => .pure ?_) fun rs u hrs => ?_
      · rw [List.map_cons, List.map_cons, hr, hrs]
      · exact ⟨by simp [Lost, hrs], by simp [Lost, hrs]⟩
    · rw [if_pos hr]
      exact ⟨by simp [Lost, hr], by simp [Lost, hr]⟩

theorem exploreForest_redacted (counts : MethodId → Option Int)
    (h : ∀ root ∈ f.roots, E.Excludes e p q b f root ∨ E.Encloses e b f root) :
    E.Abreast (fun r => r.roots.any RootReport.isAborted = true)
      (fun r r' => r.redact E.benchmark E.root = r'.redact E.benchmark E.root)
      (e.exploreForest b f counts) ((e.withHost h').exploreForest b f counts) := by
  have hroots : ∀ root ∈ f.rootsByCalls counts, E.Excludes e p q b f root ∨ E.Encloses e b f root :=
    fun root hroot => h root ((List.mergeSort_perm _ _).mem_iff.1 hroot)
  unfold Explorer.exploreForest
  refine .say_bind ((exploreRoots_redacted hp hq hroots).bind (fun rs rs' hrs _ _ => .pure ?_) fun rs u hrs => ?_)
  · simp only [BenchmarkReport.redact, List.map_append, hrs]
  · exact ⟨by simp [Lost, hrs], by simp [Lost, hrs]⟩

theorem exploreBenchmark_redacted (hsame : p.attempt b e.fullModel = q.attempt b e.fullModel)
    (hlog : p.log b e.fullModel = q.log b e.fullModel)
    (h : ∀ f, e.Models p b f → ∀ root ∈ f.roots, E.Excludes e p q b f root ∨ E.Encloses e b f root) :
    E.Abreast (fun r => r.roots.any RootReport.isAborted = true)
      (fun r r' => r.redact E.benchmark E.root = r'.redact E.benchmark E.root)
      (e.exploreBenchmark b) ((e.withHost h').exploreBenchmark b) := by
  unfold Explorer.exploreBenchmark
  refine (fullForest_abreast hp hq hsame hlog).next ?_
  rintro ⟨f, m⟩ _ ⟨rfl, hmodel⟩
  exact exploreForest_redacted hp hq _ (h f ⟨m, hmodel⟩)

/-- One benchmark after the other; what the explorations have to report stays the same. -/
theorem exploreAll_redacted {bs : List Benchmark}
    (hsame : ∀ b ∈ bs, p.attempt b e.fullModel = q.attempt b e.fullModel ∧
      p.log b e.fullModel = q.log b e.fullModel)
    (h : ∀ b ∈ bs, ∀ f, e.Models p b f → ∀ root ∈ f.roots,
      E.Excludes e p q b f root ∨ E.Encloses e b f root)
    {done done' : Keyed String BenchmarkReport}
    (hdone : redactAll E.benchmark E.root done = redactAll E.benchmark E.root done') :
    E.Abreast (fun out => out.2 = true)
      (fun out out' => redactAll E.benchmark E.root out.1 = redactAll E.benchmark E.root out'.1)
      (e.exploreAll done bs) ((e.withHost h').exploreAll done' bs) := by
  have hput {done done' : Keyed String BenchmarkReport} {r r' : BenchmarkReport} (name : String)
      (hdone : redactAll E.benchmark E.root done = redactAll E.benchmark E.root done')
      (hr : r.redact E.benchmark E.root = r'.redact E.benchmark E.root) :
      redactAll E.benchmark E.root (done.put name r) = redactAll E.benchmark E.root (done'.put name r') := by
    rw [redactAll, redactAll, Keyed.map_put, Keyed.map_put, hr]
    exact congrArg _ hdone
  induction bs generalizing done done' with
  | nil => exact .pure hdone
  | cons b rest ih =>
    obtain ⟨⟨hattempt, hlog⟩, hsame⟩ := List.forall_mem_cons.1 hsame
    obtain ⟨hb, hrest⟩ := List.forall_mem_cons.1 h
    unfold Explorer.exploreAll
    refine poll_abreast e (e.withHost h') ?_ fun u => ⟨rfl, rfl⟩
    refine (exploreBenchmark_redacted hp hq hattempt hlog hb).caught_bind ?_ ?_
    · rintro _ _ (@⟨r, r', hr⟩ | failure) hgo hgo'
      · have hgo : ¬r.roots.any RootReport.isAborted = true := hgo
        have hgo' : ¬r'.roots.any RootReport.isAborted = true := hgo'
        dsimp only
        rw [if_neg hgo, if_neg hgo']
        exact ih hsame hrest (hput b.name hdone hr)
      · dsimp only
        split
        · exact .say_bind (ih hsame hrest (hput b.name hdone rfl))
        · exact .say_bind (.pure (hput b.name hdone rfl))
        · exact .throw _
    · rintro (failure | r) u hlost
      · rcases hlost with hfatal | ⟨point, rfl⟩
        · have hnone : Explorer.verdict? failure = none := hfatal
          dsimp only
          rw [hnone]
          exact ⟨hfatal.terminal, hfatal.terminal⟩
        · exact ⟨rfl, rfl⟩
      · have hlost : r.roots.any RootReport.isAborted = true := hlost
        dsimp only
        rw [if_pos hlost, if_pos hlost]
        exact ⟨rfl, rfl⟩

end Reports

/-- The regimes differ at most in what the replays of the root come to. `T` are trees that are told apart by
their names, and all that the benchmark's forest offers are among them. -/
structure Explorer.DifferAt (e : Explorer W) (p q : Regime) (b : Benchmark) (root : MethodId) (T : Tree → Prop) :
    Prop where
  same : ∀ b' c, p.SameAt q b' c ∨
    b'.name = b.name ∧ ∃ t, T t ∧ t.root = root ∧ Replay.configurationOf t e.settings.resultsDir = .ok c
  offered : ∀ f t, e.Models p b f → f.Offers t → T t
  apart : ∀ t u, T t → T u → Replay.ToldApart t u

/-- No decision of the root's tree has a context in common with a decision of any other root. -/
def Explorer.SharesNoContext (e : Explorer W) (p : Regime) (bs : List Benchmark) (b : Benchmark)
    (root : MethodId) : Prop :=
  ∀ f full, e.Models p b f → f.tree root = .ok full → ∀ b' ∈ bs, ∀ f' full', e.Models p b' f' →
    f'.tree full'.root = .ok full' → ¬(b' = b ∧ full'.root = root) →
      ∀ d ∈ full.decisions, ∀ d' ∈ full'.decisions, d.context ≠ d'.context

section Whole

variable {e : Explorer W} {p q : Regime} {bs : List Benchmark} {b : Benchmark} {root : MethodId}
  {T : Tree → Prop}

/-- The enclave of a root whose replays the hosts may answer differently. -/
def Explorer.enclave (e : Explorer W) (p : Regime) (b : Benchmark) (root : MethodId) (T : Tree → Prop) :
    Enclave where
  benchmark := b.name
  root
  names n := ∃ t c, T t ∧ t.root = root ∧ Replay.configurationOf t e.settings.resultsDir = .ok c ∧ c.name = n
  contexts c := ∃ f full, e.Models p b f ∧ f.tree root = .ok full ∧ ∃ d ∈ full.decisions, d.context = c

theorem same_fullModel (h : e.DifferAt p q b root T) (b' : Benchmark) : p.SameAt q b' e.fullModel := by
  refine (h.same b' e.fullModel).resolve_right ?_
  rintro ⟨-, t, -, -, hc⟩
  exact Replay.name_ne_full (Replay.name_of_configurationOf hc)

/-- Trees that are told apart and share the name of their replay have the same root. -/
theorem root_eq_of_configurations {t u : Tree} {c c' : Configuration} {resultsDir : String}
    (h : Replay.ToldApart t u) (hc : Replay.configurationOf t resultsDir = .ok c)
    (hc' : Replay.configurationOf u resultsDir = .ok c') (hname : c.name = c'.name) : t.root = u.root := by
  obtain ⟨text, ht, hn⟩ := Replay.exists_content_of_name (Replay.name_of_configurationOf hc)
  obtain ⟨text', hu, hn'⟩ := Replay.exists_content_of_name (Replay.name_of_configurationOf hc')
  obtain rfl := Replay.content_eq_of_nameFor_eq h ht hu (hn.trans (hname.trans hn'.symm))
  exact (Replay.root_and_size_eq_of_content_eq ht hu).1

/-- Every root of every forest is the one of the enclave or has nothing to do with it. -/
theorem excludes_or_encloses (h : e.DifferAt p q b root T) (hnames : (bs.map (·.name)).Nodup) (hb : b ∈ bs)
    (hcontexts : e.SharesNoContext p bs b root) {b' : Benchmark} (hb' : b' ∈ bs) {f : Forest}
    (hf : e.Models p b' f) (root' : MethodId) :
    (e.enclave p b root T).Excludes e p q b' f root' ∨ (e.enclave p b root T).Encloses e b' f root' := by
  by_cases hplace : b' = b ∧ root' = root
  · obtain ⟨rfl, rfl⟩ := hplace
    refine .inr ⟨fun t c ht hroot hc => ⟨rfl, t, c, h.offered f t hf ht, hroot, hc, rfl⟩, ?_, rfl, rfl⟩
    exact fun full hfull d hd => ⟨f, full, hf, hfull, d, hd, rfl⟩
  refine .inl ⟨fun t c ht hroot hc => ?_, fun full hfull d' hd' => ?_⟩
  · have hout : ¬(e.enclave p b root T).Owns b' c := by
      rintro ⟨hname, u, c', hu, huroot, hc', hcname⟩
      obtain rfl : b' = b := List.inj_on_of_nodup_map hnames hb' hb hname
      have htu := root_eq_of_configurations (h.apart t u (h.offered f t hf ht) hu) hc hc' hcname.symm
      exact hplace ⟨rfl, hroot.symm.trans (htu.trans huroot)⟩
    refine ⟨hout, ((h.same b' c).resolve_right ?_).attempt_eq⟩
    rintro ⟨hname, u, hu, huroot, hcu⟩
    exact hout ⟨hname, u, c, hu, huroot, hcu, rfl⟩
  · obtain rfl := Forest.root_of_tree hfull
    rintro ⟨g, full₀, hg, hfull₀, d, hd, heq⟩
    exact hcontexts g full₀ hg hfull₀ b' hb' f full hf hfull hplace d hd d' hd' heq

/-- A report is what the exploration of the benchmarks came to. -/
theorem exploreAll_of_explore {s t : Session W} {report : Report}
    (h : (e.explore bs).on s = (.ok report, t)) : ∃ out, (e.exploreAll [] bs).on s = (.ok out, t) ∧
      report.benchmarks = out.1.map Prod.snd ∧ report.aborted = out.2 := by
  have hcount (u : Session W) : Explorer.rowsWritten.on u = (.ok (u.dataset.elim 0 (·.rowsWritten)), u) := rfl
  unfold Explorer.explore at h
  cases hprobe : e.host.probe e.settings with
  | error failure =>
    rw [hprobe, Exploring.on_bind_error (Exploring.on_demand _ s)] at h
    cases h
  | ok =>
    rw [hprobe, Exploring.on_bind_ok (Exploring.on_demand _ s), Exploring.on_bind_ok (hcount s)] at h
    rcases hall : (e.exploreAll [] bs).on s with ⟨failure | out, u⟩
    · rw [Exploring.on_bind_error hall] at h
      cases h
    · rw [Exploring.on_bind_ok hall, Exploring.on_bind_ok (hcount u)] at h
      obtain ⟨hreport, rfl⟩ := Prod.mk.inj h
      rw [← Except.ok.inj hreport]
      exact ⟨out, rfl, rfl, rfl⟩

/-- Two explorations that go to their ends on hosts that differ in the replays of one root only hand out the
same rows for all other roots, and report the same of them. -/
theorem explore_isolates (e : Explorer W) (h' : Host W) (hp : e.host.Obeys p) (hq : h'.Obeys q)
    (hnames : (bs.map (·.name)).Nodup) (hb : b ∈ bs) (hdiffer : e.DifferAt p q b root T)
    (hcontexts : e.SharesNoContext p bs b root) {s t t' : Session W} {report report' : Report}
    (h : (e.explore bs).on s = (.ok report, t)) (hgo : report.aborted = false)
    (hother : ((e.withHost h').explore bs).on s = (.ok report', t')) (hgo' : report'.aborted = false) :
    ∃ J J', t.journal = s.journal ++ J ∧ t'.journal = s.journal ++ J' ∧
      Journal.rowsBut J b.name root = Journal.rowsBut J' b.name root ∧
      report.benchmarks.map (BenchmarkReport.redact b.name root) =
        report'.benchmarks.map (BenchmarkReport.redact b.name root) := by
  obtain ⟨out, hall, hbenchmarks, haborted⟩ := exploreAll_of_explore h
  obtain ⟨out', hall', hbenchmarks', haborted'⟩ := exploreAll_of_explore hother
  have hstart : redactAll b.name root [] = redactAll b.name root [] := rfl
  have habreast := exploreAll_redacted (E := e.enclave p b root T) hp hq
    (fun b' _ => ⟨(same_fullModel hdiffer b').attempt_eq, (same_fullModel hdiffer b').2.2⟩)
    (fun b' hb' f hf root' _ => excludes_or_encloses hdiffer hnames hb hcontexts hb' hf root')
    hstart s s (.refl s)
  rw [hall, hall'] at habreast
  have hnot {o : Keyed String BenchmarkReport × Bool} (ho : o.2 = false) :
      ¬Lost (fun out : Keyed String BenchmarkReport × Bool => out.2 = true) (.ok o) := by
    simp [Lost, ho]
  obtain ⟨halike, hout⟩ := (habreast.resolve_left (hnot (haborted.symm.trans hgo))).resolve_left
    (hnot (haborted'.symm.trans hgo'))
  obtain ⟨J, hj, -⟩ := Step.run_still (e.explore_within (p := fun _ _ => True) bs (fun _ _ _ => trivial) s)
  obtain ⟨J', hj', -⟩ := Step.run_still
    ((e.withHost h').explore_within (p := fun _ _ => True) bs (fun _ _ _ => trivial) s)
  rw [h] at hj
  rw [hother] at hj'
  refine ⟨J, J', hj, hj', ?_, ?_⟩
  · have hrows {u : Session W} {K : List Event} (hu : u.journal = s.journal ++ K) :
        u.rows.filter (e.enclave p b root T).spares =
          s.rows.filter (e.enclave p b root T).spares ++ Journal.rowsBut K b.name root := by
      rw [Session.rows, hu, List.filterMap_append, List.filter_append]
      rfl
    exact List.append_cancel_left ((hrows hj).symm.trans (halike.rows.trans (hrows hj')))
  · cases hout with
    | ok hsame =>
      have := congrArg (List.map Prod.snd) hsame
      simp only [redactAll, List.map_map] at this
      rw [hbenchmarks, hbenchmarks', List.map_map, List.map_map]
      exact this

end Whole

section Stubs

/-- A tree with one decision. -/
def stub (n : Int) : Tree where
  root := ⟨n, 0⟩
  decisions := [⟨[], ⟨n, n⟩, 0, none, "", []⟩]
  ordered := List.pairwise_singleton _ _
  supported := fun d hd => by
    obtain rfl := List.mem_singleton.1 hd
    exact .inl rfl

def early : Benchmark := { name := "early", path := "/early" }

def late : Benchmark := { name := "late", path := "/late" }

/-- Every benchmark has a tree of its own. -/
def stubOf (b : Benchmark) : Tree := if b.name = "early" then stub 1 else stub 2

/-- Nothing but the log of a run. -/
def stubFiles (b : Benchmark) : Workspace :=
  { bareFiles with entries := bareFiles.entries.put ["log"] (.file (Forest.dumpText [stubOf b]).toUTF8 false) }

/-- Runs with a fault fail, and all others leave the report of the tree. -/
def faultyRegime (faults : Benchmark → Configuration → Option RunFault) : Regime where
  run b c := match faults b c with
    | none => .ok ⟨100, "/log", "/events", []⟩
    | some fault => .error (.run fault none)
  capture _ _ := .ok { samples := [1.0] }
  log b _ := .ok (Forest.regained [stubOf b])

def Host.faulty (faults : Benchmark → Configuration → Option RunFault) : Host Unit where
  probe _ := .ok ()
  run _ _ b c _ w := (⟨(faultyRegime faults).run b c, stubFiles b, ""⟩, w)
  load _ _ _ w := (.ok { samples := [1.0] }, w)
  poll w := (false, w)

variable {faults : Benchmark → Configuration → Option RunFault}

theorem isShort_stubOf (b : Benchmark) : ∀ t ∈ [stubOf b], t.IsShort := by
  refine List.forall_mem_singleton.2 ?_
  unfold stubOf Tree.IsShort
  split <;> decide +kernel

theorem load_stubFiles (b : Benchmark) : Forest.load (stubFiles b) "/log" = .ok (Forest.regained [stubOf b]) := by
  have hroot : bareFiles.entries.get? [] = some .directory := rfl
  exact load_of_reporting hroot (isShort_stubOf b)

theorem faulty_obeys (faults : Benchmark → Configuration → Option RunFault) :
    (Host.faulty faults).Obeys (faultyRegime faults) where
  run _ _ _ _ _ _ := rfl
  load _ _ _ _ _ _ _ _ _ := rfl
  log settings verbose b c ws w run hrun := by
    have hlog : run.logFile = "/log" := by
      unfold faultyRegime at hrun
      dsimp only at hrun
      split at hrun
      · rw [← Except.ok.inj hrun]
      · cases hrun
    rw [hlog]
    exact load_stubFiles b
  run_error b c failure hrun := by
    unfold faultyRegime at hrun
    dsimp only at hrun
    split at hrun
    · cases hrun
    · exact ⟨_, none, (Except.error.inj hrun).symm⟩
  load_error _ _ _ _ _ h := by cases h

theorem stubFiles_fits (b : Benchmark) : replayLayout.Fits (stubFiles b) := by
  have hkeeps : replayLayout.Keeps bareFiles (stubFiles b) := by
    refine bareFiles_fits.keeps rfl fun p u hp hne => absurd ?_ hne
    have hother : p ≠ ["log"] := by
      rintro rfl
      cases hp
    rw [stubFiles, Keyed.get?_put, if_neg hother]
  exact hkeeps.fits

def stubExplorer (faults : Benchmark → Configuration → Option RunFault) : Explorer Unit :=
  { host := .faulty faults, settings := { maxRetries := 0 } }

/-- There is room for replays, no dataset, and only full models were measured. -/
structure Idle (s : Session Unit) : Prop where
  fits : replayLayout.Fits s.workspace
  dataset : s.dataset = none
  full : ∀ key m, s.measurements.get? key = some m → key.2 = "full"

/-- All runs but those of the full model fail. -/
def FaultyReplays (faults : Benchmark → Configuration → Option RunFault) : Prop :=
  ∀ b c, faults b c = none ↔ c.name = "full"

section Faulty

variable {s : Session Unit}

theorem Idle.still {t : Session Unit} (h : Idle s) (hw : t.workspace = s.workspace) (hd : t.dataset = s.dataset)
    (hm : t.measurements = s.measurements) : Idle t :=
  ⟨hw ▸ h.fits, hd.trans h.dataset, hm ▸ h.full⟩

theorem Idle.say (h : Idle s) (text : String) {fail : Failure → Session Unit → Prop} :
    (say text).Yields s (fun _ t => Idle t) fail :=
  .of_ok (Exploring.on_say text s) (h.still rfl rfl rfl)

theorem Idle.poll (h : Idle s) {fail : Failure → Session Unit → Prop} :
    (stubExplorer faults).poll.Yields s (fun answer t => answer = false ∧ Idle t) fail :=
  .of_ok ((stubExplorer faults).on_poll s) ⟨rfl, h.still rfl rfl rfl⟩

theorem emitMissing_of_idle (h : Idle s) (b : Benchmark) (root : MethodId) (ds : List Decision) :
    (Explorer.emitMissing b root ds).Yields s (fun _ t => Idle t) fun _ _ => False := by
  induction ds generalizing s with
  | nil => exact .pure h
  | cons d rest ih =>
    have hemit : (emit ⟨b.name, root, d, none⟩).on s = (.ok (), s.note (.emitted ⟨b.name, root, d, none⟩)) := by
      simp only [Exploring.on, ExceptT.run, StateT.run, emit, h.dataset]
    unfold Explorer.emitMissing
    refine .after (Exploring.on_isExplored _ s) ?_
    split
    · exact ih h
    · have hnext : Idle (s.note (.emitted ⟨b.name, root, d, none⟩)) := h.still rfl rfl rfl
      exact .after hemit ((ih hnext).bind fun _ _ ht => .pure ht)

variable (hfaults : FaultyReplays faults) (h : Idle s) (b : Benchmark)

include hfaults h

theorem on_fullForest_of_faulty : ∃ m t, ((stubExplorer faults).fullForest b).on s =
    (.ok (Forest.regained [stubOf b], m), t) ∧ Idle t := by
  let e := stubExplorer faults
  let run : CompletedRun := ⟨100, "/log", "/events", []⟩
  have hout : (faultyRegime faults).run b e.fullModel = .ok run := by
    simp only [faultyRegime, (hfaults b e.fullModel).2 rfl]
    rfl
  have hlaunch : (e.launch b e.fullModel).on s = (.ok run, ((e.launch b e.fullModel).on s).2) :=
    Prod.ext hout rfl
  have hattempt : (e.attempt b e.fullModel).on s = (.ok (run, { samples := [1.0] }),
      ((e.launch b e.fullModel).on s).2.note (.loaded (.ok { samples := [1.0] }))) := by
    rw [Explorer.attempt, Exploring.on_bind_ok hlaunch]
    rfl
  refine ⟨_, _, e.on_fullForest_of_attempt le_rfl rfl hattempt (load_stubFiles b), stubFiles_fits b, h.dataset, ?_⟩
  intro key m hm
  have hm : (s.measurements.put (b.name, e.fullModel.name) { samples := [1.0] }).get? key = some m := hm
  rw [Keyed.get?_put] at hm
  split at hm
  · rename_i hkey
    rw [hkey]
    rfl
  · exact h.full key m hm

/-- The empty tree of the benchmark's root is written out, and its run fails. -/
theorem on_measureTree_of_faulty : ∃ fault t, ((stubExplorer faults).measureTree b (.empty (stubOf b).root)).on s =
    (.error (.run fault none), t) ∧ Idle t := by
  let e := stubExplorer faults
  have htree : (Forest.regained [stubOf b]).tree (stubOf b).root = .ok (stubOf b).bare :=
    Forest.tree_regained (t := stubOf b) (List.mem_singleton_self _) List.count_singleton_self
  obtain ⟨text, htext⟩ := (Forest.isShort_regained (isShort_stubOf b)).exists_content
    (t := .empty (stubOf b).root) ⟨(stubOf b).bare, 0, htree, rfl⟩
  have hname : (Replay.fileName (.empty (stubOf b).root) text).utf8ByteSize ≤ Workspace.maxNameBytes := by
    have hle := Replay.utf8ByteSize_fileName_le (.empty (stubOf b).root) text
    have htoken : (Text.hex8 (Tree.empty (stubOf b).root).root.token).utf8ByteSize = 8 := by
      unfold stubOf
      split <;> decide +kernel
    have hsize : (toString (Tree.empty (stubOf b).root).size).utf8ByteSize = 1 := by
      rw [show (Tree.empty (stubOf b).root).size = 0 from rfl]
      decide +kernel
    rw [Workspace.maxNameBytes]
    omega
  obtain ⟨c, ws, hprepare, hkeep⟩ := replayLayout_takesReplays.prepare h.fits htext hname
  have hprepare : Replay.prepare s.workspace (.empty (stubOf b).root) e.settings.resultsDir = .ok (c, ws) := hprepare
  have hc : c.name ≠ "full" := by
    intro heq
    exact Replay.name_ne_full (heq ▸ Replay.name_of_configurationOf (Replay.configurationOf_of_prepare hprepare))
  have hnone : s.measurements.get? (b.name, c.name) = none := by
    cases hm : s.measurements.get? (b.name, c.name) with
    | none => rfl
    | some m => exact (hc (h.full _ m hm)).elim
  obtain ⟨fault, hfault⟩ := Option.ne_none_iff_exists'.1 (mt (hfaults b c).1 hc)
  have hout : (faultyRegime faults).run b c = .error (.run fault none) := by
    simp only [faultyRegime, hfault]
  let u : Session Unit := { s with workspace := ws }.note (.prepared (.empty (stubOf b).root))
  have hwritten : (e.prepare (.empty (stubOf b).root)).on s = (.ok c, u) := by
    simp only [Explorer.prepare, Exploring.on_bind, Exploring.on_get, Exploring.on_demand, hprepare,
      Exploring.on_modify, Exploring.on_pure]
    rfl
  have hlaunch : (e.launch b c).on u = (.error (.run fault none), ((e.launch b c).on u).2) := Prod.ext hout rfl
  have hattempt : (e.attempt b c).on u = (.error (.run fault none), ((e.launch b c).on u).2) := by
    rw [Explorer.attempt]
    exact Exploring.on_bind_error hlaunch _
  obtain ⟨v, hrun, hws, hdataset, hmeasurements⟩ : ∃ v, (e.run b c).on u = (.error (.run fault none), v) ∧
      v.workspace = stubFiles b ∧ v.dataset = s.dataset ∧ v.measurements = s.measurements := by
    rw [Explorer.run, if_neg (show ¬e.settings.maxRetries < 0 from lt_irrefl 0)]
    show ∃ v, (e.attempts b c 1 0).on u = _ ∧ _
    rw [Explorer.attempts, Exploring.on_bind_ok (Exploring.on_caught _ u), hattempt]
    exact ⟨_, rfl, rfl, rfl, rfl⟩
  refine ⟨fault, v, ?_, hws ▸ stubFiles_fits b, hdataset.trans h.dataset, hmeasurements ▸ h.full⟩
  rw [Explorer.measureTree, Exploring.on_bind_ok hwritten, Explorer.measure, Exploring.on_bind_ok (Exploring.on_get u)]
  rw [show u.measurements.get? (b.name, c.name) = none from hnone]
  exact Exploring.on_bind_error hrun _

/-- The benchmark's only root is given up, and has nothing but rows without data. -/
theorem exploreRoot_of_faulty : ((stubExplorer faults).exploreRoot b (Forest.regained [stubOf b])
    (stubOf b).root).Yields s (fun r t => r.isAborted = false ∧ Idle t) fun _ _ => False := by
  have htree : (Forest.regained [stubOf b]).tree (stubOf b).root = .ok (stubOf b).bare :=
    Forest.tree_regained (t := stubOf b) (List.mem_singleton_self _) List.count_singleton_self
  obtain ⟨fault, t, hmeasure, ht⟩ := on_measureTree_of_faulty hfaults h b
  have hends : ((stubExplorer faults).measureEnds b (stubOf b).bare).on s = (.error (.run fault none), t) :=
    Exploring.on_bind_error hmeasure _
  apply Explorer.Opening.yields
  case hrefused => exact fun _ hrefused => by cases hrefused.symm.trans htree
  case hbare => exact fun _ _ _ => ⟨rfl, h⟩
  case hexplored => exact fun _ _ _ _ => ⟨rfl, h⟩
  case hentered =>
    intro full hfull _
    obtain rfl := Except.ok.inj (hfull.symm.trans htree)
    refine .of_on ((stubExplorer faults).on_exploreTree_of_error hends) ?_
    exact (ht.say _).bind fun _ _ hu => (emitMissing_of_idle hu b _ _).bind fun _ _ hv => .pure ⟨rfl, hv⟩

theorem exploreRoots_of_faulty : ((stubExplorer faults).exploreRoots b (Forest.regained [stubOf b])
    [(stubOf b).root]).Yields s (fun rs t => rs.any RootReport.isAborted = false ∧ Idle t) fun _ _ => False := by
  unfold Explorer.exploreRoots
  refine h.poll.bind ?_
  rintro _ t ⟨rfl, ht⟩
  refine (exploreRoot_of_faulty hfaults ht b).bind ?_
  rintro r u ⟨hgo, hu⟩
  rw [hgo]
  refine .after (Exploring.on_pure [] u) (.pure ⟨?_, hu⟩)
  rw [List.any_cons, hgo]
  rfl

theorem exploreBenchmark_of_faulty : ((stubExplorer faults).exploreBenchmark b).Yields s
    (fun r t => r.roots.any RootReport.isAborted = false ∧ Idle t) fun _ _ => False := by
  obtain ⟨m, t, hfull, ht⟩ := on_fullForest_of_faulty hfaults h b
  unfold Explorer.exploreBenchmark
  refine .after hfull ?_
  unfold Explorer.exploreForest
  dsimp only
  rw [rootsByCalls_regained_singleton, show (Forest.regained [stubOf b]).ambiguous = [] from
    congrArg Forest.ambiguous (Forest.regained_singleton _)]
  exact (ht.say _).bind fun _ _ hu => (exploreRoots_of_faulty hfaults hu b).bind fun _ _ hv => .pure hv

theorem exploreAll_of_faulty (bs : List Benchmark) (done : Keyed String BenchmarkReport) :
    ((stubExplorer faults).exploreAll done bs).Yields s (fun out _ => out.2 = false) fun _ _ => False := by
  induction bs generalizing s done with
  | nil => exact .pure rfl
  | cons b rest ih =>
    unfold Explorer.exploreAll
    refine h.poll.bind ?_
    rintro _ t ⟨rfl, ht⟩
    refine (exploreBenchmark_of_faulty hfaults ht b).caught_bind ?_ fun _ _ => False.elim
    rintro r u ⟨hgo, hu⟩
    dsimp only
    rw [hgo]
    exact ih hu _

end Faulty

variable (hfaults : FaultyReplays faults)

include hfaults

theorem exists_report_of_faulty (bs : List Benchmark) : ∃ report t, ((stubExplorer faults).explore bs).on
    (Session.fresh () bareFiles none) = (.ok report, t) ∧ report.aborted = false := by
  have hidle : Idle (Session.fresh () bareFiles none) := ⟨bareFiles_fits, rfl, nofun⟩
  have hyields : ((stubExplorer faults).explore bs).Yields (Session.fresh () bareFiles none)
      (fun report _ => report.aborted = false) fun _ _ => False := by
    unfold Explorer.explore
    refine .after rfl (.after rfl ((exploreAll_of_faulty hfaults hidle bs []).bind fun _ _ hgo => ?_))
    exact .after rfl (.pure hgo)
  rcases hdone : ((stubExplorer faults).explore bs).on (Session.fresh () bareFiles none) with ⟨failure | report, t⟩
  · exact (hyields.error failure t hdone).elim
  · exact ⟨report, t, rfl, hyields.ok report t hdone⟩

omit hfaults

/-- The trees that replays of the early benchmark's root can be about. -/
def EarlyTree (t : Tree) : Prop := (Forest.regained [stub 1]).Offers t

/-- The configuration replays the early benchmark's root. -/
def replaysEarly (c : Configuration) : Bool :=
  (List.range 2).any fun k => (Replay.configurationOf ((stub 1).bare.upTo k) defaultResultsDir).toOption = some c

def crash (_ : Benchmark) (c : Configuration) : Option RunFault :=
  if c.name = "full" then none else some (.reported "crashed")

/-- The same, but with other words for replays of the early benchmark's root. -/
def earlyCrash (b : Benchmark) (c : Configuration) : Option RunFault :=
  if b.name = "early" ∧ replaysEarly c then some (.reported "lost") else crash b c

theorem faultyReplays_crash : FaultyReplays crash := by
  intro b c
  simp [crash]

theorem configurationOf_of_replaysEarly {c : Configuration} (h : replaysEarly c = true) : ∃ t, EarlyTree t ∧
    t.root = (stub 1).root ∧ Replay.configurationOf t defaultResultsDir = .ok c := by
  obtain ⟨k, -, hk⟩ := List.any_eq_true.1 h
  have hk := of_decide_eq_true hk
  have htree : (Forest.regained [stub 1]).tree (stub 1).root = .ok (stub 1).bare :=
    Forest.tree_regained (t := stub 1) (List.mem_singleton_self _) List.count_singleton_self
  refine ⟨(stub 1).bare.upTo k, offers_upTo htree k, rfl, ?_⟩
  cases hconf : Replay.configurationOf ((stub 1).bare.upTo k) defaultResultsDir with
  | error failure =>
    rw [hconf] at hk
    cases hk
  | ok c' =>
    rw [hconf] at hk
    rw [Option.some.inj hk]

theorem faultyReplays_earlyCrash : FaultyReplays earlyCrash := by
  intro b c
  unfold earlyCrash
  split
  · rename_i h
    obtain ⟨t, -, -, hc⟩ := configurationOf_of_replaysEarly h.2
    refine iff_of_false nofun fun hfull => ?_
    exact Replay.name_ne_full (hfull ▸ Replay.name_of_configurationOf hc)
  · exact faultyReplays_crash b c

theorem stubOf_early : stubOf early = stub 1 := if_pos rfl

theorem stubOf_late : stubOf late = stub 2 := if_neg (by decide)

theorem forest_of_models {b : Benchmark} {f : Forest} (h : (stubExplorer faults).Models (faultyRegime faults) b f) :
    f = Forest.regained [stubOf b] := by
  obtain ⟨m, h⟩ := h
  unfold Regime.model at h
  split at h
  · exact (Prod.mk.inj (Except.ok.inj h)).1.symm
  · cases h

theorem eq_bare_of_tree {t full : Tree} {root : MethodId} (h : (Forest.regained [t]).tree root = .ok full) :
    full = t.bare := by
  have hmem := (Forest.mem_trees_of_tree h).1
  rw [Forest.regained_singleton] at hmem
  exact List.mem_singleton.1 hmem

theorem site_of_stub {n : Int} {d : Decision} (h : d ∈ (stub n).bare.decisions) : d.site = ⟨n, n⟩ := by
  obtain ⟨d', hd', rfl⟩ := List.mem_map.1 h
  rw [List.mem_singleton.1 hd']
  rfl

theorem differAt_early : (stubExplorer crash).DifferAt (faultyRegime crash) (faultyRegime earlyCrash) early
    (stub 1).root EarlyTree where
  same b' c := by
    by_cases h : b'.name = "early" ∧ replaysEarly c
    · exact .inr ⟨h.1, configurationOf_of_replaysEarly h.2⟩
    · refine .inl ⟨?_, rfl, rfl⟩
      simp only [faultyRegime, earlyCrash, if_neg h]
  offered f t hf ht := by
    rw [forest_of_models hf, stubOf_early] at ht
    exact ht
  apart t u ht hu hsize text text' htext htext' _ := by
    have hroot {t : Tree} (ht : EarlyTree t) : t.root = (stub 1).root := by
      obtain ⟨full, k, hfull, -⟩ := ht
      rw [← Forest.root_of_tree hfull, eq_bare_of_tree hfull]
      rfl
    have hroots := (hroot ht).trans (hroot hu).symm
    obtain rfl := ht.eq_of_size hu hroots (hsize hroots)
    exact Except.ok.inj (htext.symm.trans htext')

theorem sharesNoContext_early : (stubExplorer crash).SharesNoContext (faultyRegime crash) [early, late] early
    (stub 1).root := by
  intro f full hf hfull b' hb' f' full' hf' hfull' hother d hd d' hd' heq
  obtain rfl := forest_of_models hf
  obtain rfl := forest_of_models hf'
  rw [stubOf_early] at hfull
  obtain rfl := eq_bare_of_tree hfull
  rcases List.mem_pair.1 hb' with rfl | rfl
  · rw [stubOf_early] at hfull'
    refine (hother ⟨rfl, ?_⟩).elim
    rw [eq_bare_of_tree hfull']
    rfl
  · rw [stubOf_late] at hfull'
    rw [eq_bare_of_tree hfull'] at hd'
    have hoffset : d.site.offset = d'.site.offset := congrArg Decision.Context.offset heq
    rw [site_of_stub hd, site_of_stub hd'] at hoffset
    exact absurd hoffset (by decide)

theorem explore_stubs_isolates :
    (stubExplorer crash).host.Obeys (faultyRegime crash) ∧ (Host.faulty earlyCrash).Obeys (faultyRegime earlyCrash) ∧
      ([early, late].map (·.name)).Nodup ∧
      (stubExplorer crash).DifferAt (faultyRegime crash) (faultyRegime earlyCrash) early (stub 1).root EarlyTree ∧
      (stubExplorer crash).SharesNoContext (faultyRegime crash) [early, late] early (stub 1).root ∧
      ∃ report report' t t',
        ((stubExplorer crash).explore [early, late]).on (.fresh () bareFiles none) = (.ok report, t) ∧
        (((stubExplorer crash).withHost (.faulty earlyCrash)).explore [early, late]).on (.fresh () bareFiles none) =
          (.ok report', t') ∧ report.aborted = false ∧ report'.aborted = false ∧
        ∃ J J', t.journal = [] ++ J ∧ t'.journal = [] ++ J' ∧
          Journal.rowsBut J "early" (stub 1).root = Journal.rowsBut J' "early" (stub 1).root ∧
          report.benchmarks.map (BenchmarkReport.redact "early" (stub 1).root) =
            report'.benchmarks.map (BenchmarkReport.redact "early" (stub 1).root) := by
  have hnames : ([early, late].map (·.name)).Nodup := by decide
  obtain ⟨report, t, h, hgo⟩ := exists_report_of_faulty faultyReplays_crash [early, late]
  obtain ⟨report', t', h', hgo'⟩ := exists_report_of_faulty faultyReplays_earlyCrash [early, late]
  exact ⟨faulty_obeys crash, faulty_obeys earlyCrash, hnames, differAt_early, sharesNoContext_early, report, report',
    t, t', h, h', hgo, hgo', explore_isolates (stubExplorer crash) (.faulty earlyCrash) (faulty_obeys crash)
      (faulty_obeys earlyCrash) hnames (.head _) differAt_early sharesNoContext_early h hgo h' hgo'⟩

end Stubs

end InlineImpact.Exploration
