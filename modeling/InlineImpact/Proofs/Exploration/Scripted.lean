import InlineImpact.Proofs.Exploration.Isolation

/-!
A host that plays a script: what a run comes to, what its capture holds and whether an abort is requested
goes by the number of runs that were started so far. The trees of a root with one decision can always be
written out, so measuring them comes to what the script says.
-/
namespace InlineImpact.Exploration

structure Script where
  run : Nat → Except Failure CompletedRun := fun _ => .ok ⟨100, "/log", "/events", []⟩
  capture : Nat → Measurement := fun _ => { samples := [1.0] }
  abort : Nat → Bool := fun _ => false

namespace Script

def host (p : Script) : Host Nat where
  probe _ := .ok ()
  run _ _ _ _ ws n := (⟨p.run (n + 1), ws, ""⟩, n + 1)
  load _ _ _ n := (.ok (p.capture n), n)
  poll n := (p.abort n, n)

def explorer (p : Script) : Explorer Nat := { host := p.host, settings := {} }

/-- The forest of one root with one decision. -/
def forest : Forest := Forest.regained [stub 1]

def full : Tree := (stub 1).bare

theorem exists_decisions_eq : ∃ d, full.decisions = [d] := ⟨_, rfl⟩

theorem tree_forest : forest.tree full.root = .ok full :=
  Forest.tree_regained (t := stub 1) (List.mem_singleton_self _) List.count_singleton_self

/-- The session after a tree was written out and a run was started. -/
structure Ran (s : Session Nat) (t : Session Nat) : Prop where
  fits : replayLayout.Fits t.workspace
  world : t.world = s.world + 1
  dataset : t.dataset = s.dataset
  explored : t.explored = s.explored

variable (p : Script) {s : Session Nat}

theorem on_poll {answer : Bool} (h : p.abort s.world = answer) :
    p.explorer.poll.on s = (.ok answer, s.note (.polled answer)) := by
  subst h
  rfl

theorem on_prepare (hfits : replayLayout.Fits s.workspace) (k : Nat) :
    ∃ c ws, Replay.configurationOf (full.upTo k) defaultResultsDir = .ok c ∧ replayLayout.Fits ws ∧
      (p.explorer.prepare (full.upTo k)).on s = (.ok c, { s with workspace := ws }.note (.prepared (full.upTo k))) := by
  have hshort : forest.IsShort := Forest.isShort_regained (isShort_stubOf early)
  obtain ⟨text, htext⟩ := hshort.exists_content (t := full.upTo k) ⟨full, k, tree_forest, rfl⟩
  have hname : (Replay.fileName (full.upTo k) text).utf8ByteSize ≤ Workspace.maxNameBytes := by
    have hle := Replay.utf8ByteSize_fileName_le (full.upTo k) text
    have htoken : (Text.hex8 (full.upTo k).root.token).utf8ByteSize = 8 := by
      show (Text.hex8 1).utf8ByteSize = 8
      decide +kernel
    have hsize : (toString (full.upTo k).size).utf8ByteSize = 1 := by
      have hone : (full.upTo k).size = 0 ∨ (full.upTo k).size = 1 := by
        have : (full.upTo k).size = min k 1 := Tree.size_upTo full k
        omega
      rcases hone with h | h <;> rw [h] <;> decide +kernel
    rw [Workspace.maxNameBytes]
    omega
  obtain ⟨c, ws, hprepare, hkeep⟩ := replayLayout_takesReplays.prepare hfits htext hname
  refine ⟨c, ws, Replay.configurationOf_of_prepare hprepare, hkeep.fits, ?_⟩
  have hprepare : Replay.prepare s.workspace (full.upTo k) p.explorer.settings.resultsDir = .ok (c, ws) := hprepare
  simp only [Explorer.prepare, Exploring.on_bind, Exploring.on_get, Exploring.on_demand, hprepare,
    Exploring.on_modify, Exploring.on_pure]

/-- A tree that was not measured yet is measured by the next run. -/
theorem on_measureTree (hfits : replayLayout.Fits s.workspace) (b : Benchmark) (k : Nat) {run : CompletedRun}
    (hrun : p.run (s.world + 1) = .ok run)
    (hnew : ∀ c, Replay.configurationOf (full.upTo k) defaultResultsDir = .ok c →
      s.measurements.get? (b.name, c.name) = none) :
    ∃ c t, Replay.configurationOf (full.upTo k) defaultResultsDir = .ok c ∧ Ran s t ∧
      t.measurements = s.measurements.put (b.name, c.name) (p.capture (s.world + 1)) ∧
      (p.explorer.measureTree b (full.upTo k)).on s = (.ok (p.capture (s.world + 1)), t) := by
  let e := p.explorer
  obtain ⟨c, ws, hc, hws, hprepare⟩ := p.on_prepare hfits k
  let u : Session Nat := { s with workspace := ws }.note (.prepared (full.upTo k))
  have hlaunch : (e.launch b c).on u = (.ok run, ((e.launch b c).on u).2) := Prod.ext hrun rfl
  have hattempt : (e.attempt b c).on u = (.ok (run, p.capture (s.world + 1)),
      ((e.launch b c).on u).2.note (.loaded (.ok (p.capture (s.world + 1))))) := by
    rw [Explorer.attempt, Exploring.on_bind_ok hlaunch]
    rfl
  have hdone := e.run_of_attempt (show (0 : Int) ≤ 2 by decide) hattempt
  have hnone : u.measurements.get? (b.name, c.name) = none := hnew c hc
  refine ⟨c, (((e.launch b c).on u).2.note (.loaded (.ok (p.capture (s.world + 1))))).remember b c
    (p.capture (s.world + 1)), hc, ⟨hws, rfl, rfl, rfl⟩, rfl, ?_⟩
  rw [Explorer.measureTree, Exploring.on_bind_ok hprepare, Explorer.measure,
    Exploring.on_bind_ok (Exploring.on_get u), hnone]
  exact Exploring.on_bind_ok hdone _

/-- A tree that was measured is not run again. -/
theorem on_measureTree_again (hfits : replayLayout.Fits s.workspace) (b : Benchmark) (k : Nat)
    {c : Configuration} {m : Measurement} (hc : Replay.configurationOf (full.upTo k) defaultResultsDir = .ok c)
    (hm : s.measurements.get? (b.name, c.name) = some m) :
    ∃ t, t.explored = s.explored ∧ t.dataset = s.dataset ∧
      (p.explorer.measureTree b (full.upTo k)).on s = (.ok m, t) := by
  obtain ⟨c', ws, hc', hws, hprepare⟩ := p.on_prepare hfits k
  obtain rfl := Except.ok.inj (hc.symm.trans hc')
  let u : Session Nat := { s with workspace := ws }.note (.prepared (full.upTo k))
  refine ⟨u, rfl, rfl, ?_⟩
  have hm : u.measurements.get? (b.name, c.name) = some m := hm
  rw [Explorer.measureTree, Exploring.on_bind_ok hprepare, Explorer.measure,
    Exploring.on_bind_ok (Exploring.on_get u), hm]
  rfl

/-- Without a dataset every row is handed out. -/
theorem on_emit_unrecorded (hdataset : s.dataset = none) (row : Dataset.Row) :
    (emit row).on s = (.ok (), s.note (.emitted row)) := by
  simp only [Exploring.on, ExceptT.run, StateT.run, emit, hdataset]

/-- The one decision gets a row without data. -/
theorem on_giveUp (hdataset : s.dataset = none) (hnew : s.explored = []) (b : Benchmark) (report : RootReport)
    (fault : RunFault) : ∃ d t, (Explorer.giveUp b full.decisions report fault).on s =
        (.ok { report with missing := report.missing + 1, state := .exhausted, reason := fault.message }, t) ∧
      t.world = s.world ∧ t.journal = s.journal ++ [.emitted ⟨b.name, report.root, d, none⟩] := by
  obtain ⟨d, hd⟩ := exists_decisions_eq
  let note := "  " ++ report.root.text ++ ": giving up on branch after retries: " ++ fault.message ++ "\n"
  let u : Session Nat := { s with output := s.output ++ note }
  have hexplored : (isExplored d.context).on u = (.ok false, u) := by
    rw [Exploring.on_isExplored, show u.explored = [] from hnew]
    rfl
  have hmissing : (Explorer.emitMissing b report.root [d]).on u =
      (.ok 1, u.note (.emitted ⟨b.name, report.root, d, none⟩)) := by
    rw [Explorer.emitMissing, Exploring.on_bind_ok hexplored]
    exact Exploring.on_bind_ok (on_emit_unrecorded (s := u) hdataset _) _
  refine ⟨d, u.note (.emitted ⟨b.name, report.root, d, none⟩), ?_, rfl, rfl⟩
  rw [Explorer.giveUp, Exploring.on_bind_ok (Exploring.on_say note s), hd]
  exact Exploring.on_bind_ok hmissing _

section Failing

/-- The session after some runs, all of which came to this failure. -/
structure Failed (failure : Failure) (s : Session Nat) (b : Benchmark) (c : Configuration) (n : Nat)
    (t : Session Nat) : Prop where
  world : t.world = s.world + n
  dataset : t.dataset = s.dataset
  explored : t.explored = s.explored
  journal : ∃ J, t.journal = s.journal ++ J ++ [.ran b c (.error failure)]

variable {fault : RunFault} {code : Option Int} (hrun : ∀ n, p.run n = .error (.run fault code))

include hrun

/-- No attempt counts, and no abort is requested before the last one was started. By induction on the
retries that are left. -/
theorem on_attempts_failing (b : Benchmark) (c : Configuration) (number left : Nat) (s : Session Nat)
    (hgo : ∀ n ≤ s.world + left, p.abort n = false) :
    ∃ t, (p.explorer.attempts b c number left).on s = (.error (.run fault code), t) ∧
      Failed (.run fault code) s b c (left + 1) t := by
  let e := p.explorer
  have hattempt (s : Session Nat) : ∃ t, (e.attempt b c).on s = (.error (.run fault code), t) ∧
      t.world = s.world + 1 ∧ t.dataset = s.dataset ∧ t.explored = s.explored ∧
      t.journal = s.journal ++ [.ran b c (.error (.run fault code))] := by
    have hlaunch : (e.launch b c).on s = (.error (.run fault code), ((e.launch b c).on s).2) :=
      Prod.ext (hrun _) rfl
    have hnoted : ((e.launch b c).on s).2.journal = s.journal ++ [.ran b c (.error (.run fault code))] := by
      show s.journal ++ [.ran b c (p.run (s.world + 1))] = _
      rw [hrun]
    exact ⟨_, Exploring.on_bind_error hlaunch _, rfl, rfl, rfl, hnoted⟩
  induction left using Nat.strongRecOn generalizing number s with
  | ind left ih =>
    obtain ⟨t, ht, hworld, hdataset, hexplored, hj⟩ := hattempt s
    obtain ⟨next, z, hretrial, hnext⟩ := e.attempts_retrial b c number left s
    have hanswer (hleft : 0 < left) : p.abort t.world = false := hgo _ (by omega)
    rw [hnext]
    cases hretrial with
    | counted h => cases ht.symm.trans h
    | broken h hfatal =>
      cases ht.symm.trans h
      exact (hfatal _ _ rfl).elim
    | exhausted h hsay =>
      cases ht.symm.trans h
      obtain rfl := Exploring.eq_of_say hsay
      exact ⟨_, rfl, hworld, hdataset, hexplored, [], by simpa using hj⟩
    | stopped h hsay hpoll =>
      cases ht.symm.trans h
      obtain rfl := Exploring.eq_of_say hsay
      cases hpoll.symm.trans (p.on_poll (hanswer (Nat.succ_pos _)))
    | again h hsay hpoll hnote =>
      cases ht.symm.trans h
      have hz : z.world = t.world ∧ z.dataset = t.dataset ∧ z.explored = t.explored ∧
          z.journal = t.journal ++ [.polled false] := by
        obtain rfl := Exploring.eq_of_say hsay
        cases hpoll.symm.trans (p.on_poll (hanswer (Nat.succ_pos _)))
        rw [Exploring.eq_of_say hnote]
        exact ⟨rfl, rfl, rfl, rfl⟩
      obtain ⟨hzworld, hzdataset, hzexplored, hzjournal⟩ := hz
      obtain ⟨w, hw, hfailed⟩ := ih _ (Nat.lt_succ_self _) (number + 1) z fun n hn => hgo n (by omega)
      obtain ⟨J, hJ⟩ := hfailed.journal
      refine ⟨w, hw, ?_, ?_, ?_, [.ran b c (.error (.run fault code)), .polled false] ++ J, ?_⟩
      · rw [hfailed.world]
        omega
      · rw [hfailed.dataset, hzdataset, hdataset]
      · rw [hfailed.explored, hzexplored, hexplored]
      · rw [hJ, hzjournal, hj]
        simp

/-- A tree that was not measured yet cannot be measured. -/
theorem on_measureTree_failing (hfits : replayLayout.Fits s.workspace) (b : Benchmark) (k : Nat)
    (hnew : s.measurements = []) (hgo : ∀ n ≤ s.world + 2, p.abort n = false) :
    ∃ c t, Failed (.run fault code) s b c 3 t ∧
      (p.explorer.measureTree b (full.upTo k)).on s = (.error (.run fault code), t) := by
  obtain ⟨c, ws, -, -, hprepare⟩ := p.on_prepare hfits k
  obtain ⟨t, ht, hfailed⟩ := p.on_attempts_failing hrun b c 1 2 (({ s with workspace := ws } : Session Nat).note
    (.prepared (full.upTo k))) hgo
  obtain ⟨J, hJ⟩ := hfailed.journal
  have hdone : (p.explorer.run b c).on (({ s with workspace := ws } : Session Nat).note
      (.prepared (full.upTo k))) = (.error (.run fault code), t) := ht
  refine ⟨c, t, ⟨hfailed.world, hfailed.dataset, hfailed.explored, .prepared (full.upTo k) :: J, ?_⟩, ?_⟩
  · rw [hJ]
    simp [Session.note]
  · have hnone : (({ s with workspace := ws } : Session Nat).note (.prepared (full.upTo k))).measurements.get?
        (b.name, c.name) = none := by
      show s.measurements.get? _ = none
      rw [hnew]
      rfl
    rw [Explorer.measureTree, Exploring.on_bind_ok hprepare, Explorer.measure,
      Exploring.on_bind_ok (Exploring.on_get _), hnone]
    exact Exploring.on_bind_error hdone _

end Failing

/-- The root is gone into if its decision is not explored. -/
theorem on_exploreRoot (b : Benchmark) (hnew : ∀ d ∈ full.decisions, d.context ∉ s.explored) :
    (p.explorer.exploreRoot b forest full.root).on s = (p.explorer.exploreTree b forest full).on s := by
  obtain ⟨d, hd⟩ := exists_decisions_eq
  have hmem : d ∈ full.decisions := hd ▸ List.mem_singleton_self d
  exact p.explorer.on_exploreRoot_of_left tree_forest ⟨d, hmem, hnew d hmem⟩

/-- The root is passed by if its decision is explored. -/
theorem on_exploreRoot_again (b : Benchmark) (hall : ∀ d ∈ full.decisions, d.context ∈ s.explored) :
    (p.explorer.exploreRoot b forest full.root).on s =
      (.ok ⟨full.root, .exhausted, 0, full.size, 0, "all decisions already explored"⟩, s) := by
  have hopening := p.explorer.exploreRoot_opening b forest full.root s
  generalize (p.explorer.exploreRoot b forest full.root).on s = done at hopening
  cases hopening with
  | refused h => cases h.symm.trans tree_forest
  | bare h hnone =>
    obtain rfl := Except.ok.inj (h.symm.trans tree_forest)
    cases hnone
  | explored h _ _ =>
    obtain rfl := Except.ok.inj (h.symm.trans tree_forest)
    rfl
  | entered h hleft =>
    obtain rfl := Except.ok.inj (h.symm.trans tree_forest)
    obtain ⟨d, hd, hnew⟩ := hleft
    exact (hnew (hall d hd)).elim

/-- The trees without and with the decision have replays of their own. -/
theorem name_ne {c c' : Configuration} (hc : Replay.configurationOf (full.upTo 0) defaultResultsDir = .ok c)
    (hc' : Replay.configurationOf (full.upTo 1) defaultResultsDir = .ok c') : c.name ≠ c'.name := by
  intro heq
  have hroot : (full.upTo 0).root = (full.upTo 1).root := rfl
  have hsize := Replay.size_eq_of_name_eq hroot
    (Replay.name_of_configurationOf hc) (heq ▸ Replay.name_of_configurationOf hc')
  rw [Tree.size_upTo, Tree.size_upTo] at hsize
  exact absurd hsize (by decide)

/-- Nothing was measured yet: the runs of the empty and the full tree are the first two. -/
theorem on_measureEnds (hfits : replayLayout.Fits s.workspace) (b : Benchmark) {run run' : CompletedRun}
    (hrun : p.run (s.world + 1) = .ok run) (hrun' : p.run (s.world + 2) = .ok run')
    (hgo : p.abort (s.world + 1) = false) (hnew : s.measurements = []) :
    ∃ c t, Replay.configurationOf (full.upTo 1) defaultResultsDir = .ok c ∧ replayLayout.Fits t.workspace ∧
      t.world = s.world + 2 ∧ t.dataset = s.dataset ∧ t.explored = s.explored ∧
      t.measurements.get? (b.name, c.name) = some (p.capture (s.world + 2)) ∧
      (p.explorer.measureEnds b full).on s = (.ok (p.capture (s.world + 1), p.capture (s.world + 2)), t) := by
  obtain ⟨c, t, hc, ht, hmt, hempty⟩ := p.on_measureTree hfits b 0 hrun (by simp [hnew])
  have hpoll := p.on_poll (s := t) (ht.world ▸ hgo)
  have hrun' : p.run ((t.note (.polled false)).world + 1) = .ok run' := by
    show p.run (t.world + 1) = _
    rw [ht.world, hrun']
  obtain ⟨c', u, hc', hu, hmu, hall⟩ := p.on_measureTree (s := t.note (.polled false)) ht.fits b 1 hrun' (by
    intro c' hc'
    have hne : (b.name, c'.name) ≠ (b.name, c.name) := fun h => name_ne hc hc' (congrArg Prod.snd h).symm
    show t.measurements.get? _ = none
    rw [hmt, Keyed.get?_put_of_ne hne, hnew]
    rfl)
  have hworld : (t.note (.polled false)).world + 1 = s.world + 2 := by
    show t.world + 1 = _
    rw [ht.world]
  rw [hworld] at hmu hall
  refine ⟨c', u, hc', hu.fits, hu.world.trans hworld, hu.dataset.trans ht.dataset, hu.explored.trans ht.explored,
    by rw [hmu]; simp, ?_⟩
  have hall : (p.explorer.measureTree b full).on (t.note (.polled false)) = _ := hall
  rw [Tree.upTo_zero] at hempty
  rw [Explorer.measureEnds, Exploring.on_bind_ok hempty, Exploring.on_bind_ok hpoll]
  exact Exploring.on_bind_ok hall _

/-- The full tree is measured already: the decision gets its row without another run. -/
theorem on_grow (hfits : replayLayout.Fits s.workspace) (hgo : p.abort s.world = false)
    (hdataset : s.dataset = none) (hexplored : s.explored = []) (b : Benchmark) {c : Configuration}
    {child parent : Measurement} (hc : Replay.configurationOf (full.upTo 1) defaultResultsDir = .ok c)
    (hm : s.measurements.get? (b.name, c.name) = some child) {d : Decision} (hd : full.decisions = [d])
    (report : RootReport) {est : Estimate}
    (hest : p.explorer.estimate forest report.root d child parent = .ok est) :
    ∃ t, (p.explorer.grow b forest (.empty full.root) (some parent) report full.decisions).on s =
        (.ok { report with pairs := report.pairs + 1, state := .exhausted }, t) ∧
      t.rows = s.rows ++ [⟨b.name, report.root, d, some est⟩] ∧ t.explored = [d.context] := by
  let e := p.explorer
  let polled := s.note (.polled false)
  have hpoll := p.on_poll (s := s) hgo
  have hinsert : (demand (((Tree.empty full.root).insert d).mapError Failure.tree)).on polled =
      (.ok (full.upTo 1), polled) := by
    have hfirst : full.decisions[0]? = some d := by simp [hd]
    have hchild := Tree.insert_upTo hfirst
    rw [Tree.upTo_zero] at hchild
    rw [hchild]
    rfl
  have hnew : (isExplored d.context).on polled = (.ok false, polled) := by
    rw [Exploring.on_isExplored, show polled.explored = [] from hexplored]
    rfl
  obtain ⟨t, htexplored, htdataset, hagain⟩ := p.on_measureTree_again (s := polled) hfits b 1 hc hm
  have hpair : (e.measurePair b (.empty full.root) (some parent) (full.upTo 1)).on polled =
      (.ok (parent, child), t) := by
    rw [Explorer.measurePair, Exploring.on_bind_ok (Exploring.on_pure _ _)]
    exact Exploring.on_bind_ok hagain _
  have hdemand : (demand (e.estimate forest report.root d child parent)).on t = (.ok est, t) := by
    rw [hest]
    rfl
  let row : Dataset.Row := ⟨b.name, report.root, d, some est⟩
  let u : Session Nat := { t.note (.emitted row) with explored := [d.context] }
  have hemit : (Explorer.emitMeasured b report.root d est).on t = (.ok (), u) := by
    rw [Explorer.emitMeasured, Exploring.on_bind_ok (on_emit_unrecorded (htdataset.trans hdataset) _),
      Exploring.on_markExplored, show (t.note (.emitted row)).explored = [] from htexplored.trans hexplored]
    rfl
  have hrows : u.rows = s.rows ++ [row] := by
    have hquiet : t.rows = polled.rows := Quiet.run_rows_eq ((e.measureTree_within b _).steps hagain)
    rw [rows_of_journal (s := t) (.emitted row) rfl, hquiet, rows_of_journal (s := s) (.polled false) rfl]
    simp [Event.row?]
  refine ⟨u, ?_, hrows, rfl⟩
  rw [hd, Explorer.grow, Exploring.on_bind_ok hpoll]
  simp only [Bool.false_eq_true, if_false]
  rw [Exploring.on_bind_ok hinsert, Exploring.on_bind_ok hnew]
  simp only [Bool.false_eq_true, if_false]
  rw [Exploring.on_bind_ok (Exploring.on_caught _ _), hpair]
  dsimp only
  rw [Exploring.on_bind_ok hdemand, Exploring.on_bind_ok hemit]
  rfl

end Script

end InlineImpact.Exploration
