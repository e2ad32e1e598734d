import InlineImpact.Proofs.Exploration.Operation

/-!
What an operation goes on with. `Retrial` tells what is left to do after one attempt of a run. Of the visit
of a root `Opening` tells what it comes to before any tree is measured, `Entry` what is left after the empty
and the full tree, `Turn` what is left after one decision, and `Recording` what follows the measurements of
its pair. `Leg` tells what is left after one root of several, `Closing` which report one benchmark leads to,
and `Round` what is left after it. A case says which operation is left, and from which session on; later proofs
go through the cases and open none of the operations. Those about two runs side by side go by `grow_cons` and
`exploreTree_eq`.
-/
namespace InlineImpact.Exploration.Explorer

variable {W : Type} (e : Explorer W)

section Attempts

variable (b : Benchmark) (c : Configuration) (number : Nat)

/-- What is left to do after one attempt, with a number of retries to go. -/
inductive Retrial (s : Session W) :
    Nat → Exploring W (CompletedRun × Measurement) → Session W → Prop where
  | counted {left r t} (hattempt : (e.attempt b c).on s = (.ok r, t)) : Retrial s left (pure r) t
  | broken {left failure t} (hattempt : (e.attempt b c).on s = (.error failure, t))
    (hrun : ∀ fault code, failure ≠ .run fault code) : Retrial s left (throw failure) t
  | exhausted {fault code t text u} (hattempt : (e.attempt b c).on s = (.error (.run fault code), t))
    (hsay : (say text).on t = (.ok (), u)) : Retrial s 0 (throw (.run fault code)) u
  | stopped {left fault code t text u v} (hattempt : (e.attempt b c).on s = (.error (.run fault code), t))
    (hsay : (say text).on t = (.ok (), u)) (hpoll : e.poll.on u = (.ok true, v)) :
    Retrial s (left + 1) (throw (.aborted (.afterFailure b.name c.name))) v
  | again {left fault code t text u v text' w}
    (hattempt : (e.attempt b c).on s = (.error (.run fault code), t)) (hsay : (say text).on t = (.ok (), u))
    (hpoll : e.poll.on u = (.ok false, v)) (hnote : (say text').on v = (.ok (), w)) :
    Retrial s (left + 1) (e.attempts b c (number + 1) left) w

theorem attempts_retrial (left : Nat) (s : Session W) : ∃ next t, e.Retrial b c number s left next t ∧
    (e.attempts b c number left).on s = next.on t := by
  unfold attempts
  rw [Exploring.on_bind_ok (Exploring.on_caught _ s)]
  rcases hattempt : (e.attempt b c).on s with ⟨o, t⟩
  dsimp only
  split
  · exact ⟨_, _, .counted hattempt, rfl⟩
  · rename_i fault code
    have hsay := Exploring.on_say ("  ERROR: " ++ fault.message ++ "\n") t
    rw [Exploring.on_bind_ok hsay]
    cases left with
    | zero => exact ⟨_, _, .exhausted hattempt hsay, rfl⟩
    | succ left =>
      have hpoll := e.on_poll { t with output := t.output ++ ("  ERROR: " ++ fault.message ++ "\n") }
      dsimp only
      rw [Exploring.on_bind_ok hpoll]
      generalize (e.host.poll _).1 = answer at hpoll ⊢
      cases answer with
      | true => exact ⟨_, _, .stopped hattempt hsay hpoll, rfl⟩
      | false =>
        exact ⟨_, _, .again hattempt hsay hpoll (Exploring.on_say _ _),
          Exploring.on_bind_ok (Exploring.on_say _ _) _⟩
  · rename_i failure hrun
    exact ⟨_, _, .broken hattempt hrun, rfl⟩

end Attempts

/-- What is left of a root after a measurement failed: a request to abort ends it, a run that failed in the
end lets it be given up, and any other failure goes through. -/
def cutShort (b : Benchmark) (ds : List Decision) (report : RootReport) : Failure → Exploring W RootReport
  | .aborted point => return { report with state := .aborted, reason := point.message }
  | .run fault _ => giveUp b ds report fault
  | failure => throw failure

section Decisions

variable (b : Benchmark) (f : Forest) (report : RootReport) (d : Decision) (rest : List Decision)

/-- What is left after a pair was measured: the decision gets its row, and the tree grows on. -/
def record (child : Tree) (parentRun childRun : Measurement) : Exploring W RootReport := do
  let est ← demand (e.estimate f report.root d childRun parentRun)
  emitMeasured b report.root d est
  if e.veryVerbose then say (pairNote report.root d est)
  e.grow b f child (some childRun) { report with pairs := report.pairs + 1 } rest

theorem grow_cons (tree : Tree) (known : Option Measurement) :
    e.grow b f tree known report (d :: rest) = (do
      if ← e.poll then return { report with state := .aborted }
      let child ← demand ((tree.insert d).mapError .tree)
      if ← isExplored d.context then
        e.grow b f child none { report with skipped := report.skipped + 1 } rest
      else match ← caught (e.measurePair b tree known child) with
        | .error failure => cutShort b (d :: rest) report failure
        | .ok (parentRun, childRun) => e.record b f report d rest child parentRun childRun) := by
  rw [grow]
  refine bind_congr fun answer => ?_
  cases answer with
  | true => rfl
  | false =>
    refine bind_congr fun child => bind_congr fun explored => ?_
    cases explored with
    | true => rfl
    | false =>
      refine bind_congr fun o => ?_
      rcases o with failure | runs
      · cases failure <;> rfl
      · rfl

/-- What is done about one decision after an abort was asked for, whether to insert it into the tree or to
measure the pair of it. -/
inductive Turn (tree : Tree) (known : Option Measurement) :
    Bool → Session W → Exploring W RootReport → Session W → Prop where
  | aborted {s} : Turn tree known true s (pure { report with state := .aborted }) s
  | refused {s fault} (hinsert : tree.insert d = .error fault) :
    Turn tree known false s (throw (.tree fault)) s
  /-- The decision has a row with an estimate already. -/
  | passed {s child} (hinsert : tree.insert d = .ok child) (hd : d.context ∈ s.explored) :
    Turn tree known false s (e.grow b f child none { report with skipped := report.skipped + 1 } rest) s
  | unpaired {s t child failure} (hinsert : tree.insert d = .ok child) (hd : d.context ∉ s.explored)
    (hpair : (e.measurePair b tree known child).on s = (.error failure, t)) :
    Turn tree known false s (cutShort b (d :: rest) report failure) t
  | paired {s t child parentRun childRun} (hinsert : tree.insert d = .ok child)
    (hd : d.context ∉ s.explored)
    (hpair : (e.measurePair b tree known child).on s = (.ok (parentRun, childRun), t)) :
    Turn tree known false s (e.record b f report d rest child parentRun childRun) t

theorem grow_turn (tree : Tree) (known : Option Measurement) (s : Session W) :
    ∃ answer t, e.poll.on s = (.ok answer, t) ∧ ∃ next u, e.Turn b f report d rest tree known answer t next u ∧
      (e.grow b f tree known report (d :: rest)).on s = next.on u := by
  refine ⟨_, _, e.on_poll s, ?_⟩
  rw [grow_cons, Exploring.on_bind_ok (e.on_poll s)]
  generalize ({ s with world := (e.host.poll s.world).2 } : Session W).note _ = t
  cases (e.host.poll s.world).1 with
  | true => exact ⟨_, _, .aborted, rfl⟩
  | false =>
    simp only [Bool.false_eq_true, if_false]
    cases hinsert : tree.insert d with
    | error fault =>
      have hdemand : (demand ((Except.error fault : Except TreeFault Tree).mapError Failure.tree)).on t =
        (.error (.tree fault), t) := rfl
      exact ⟨_, _, .refused hinsert, Exploring.on_bind_error hdemand _⟩
    | ok child =>
      have hdemand : (demand ((Except.ok child : Except TreeFault Tree).mapError Failure.tree)).on t = (.ok child, t) :=
        rfl
      rw [Exploring.on_bind_ok hdemand, Exploring.on_bind_ok (Exploring.on_isExplored d.context t)]
      by_cases hd : d.context ∈ t.explored
      · rw [if_pos (by simpa using hd)]
        exact ⟨_, _, .passed hinsert hd, rfl⟩
      · rw [if_neg (by simpa using hd), Exploring.on_bind_ok (Exploring.on_caught _ t)]
        rcases hpair : (e.measurePair b tree known child).on t with ⟨failure | ⟨parentRun, childRun⟩, u⟩
        · exact ⟨_, _, .unpaired hinsert hd hpair, rfl⟩
        · exact ⟨_, _, .paired hinsert hd hpair, rfl⟩

/-- What follows the measurements of a pair. The tree grows on after something was said, maybe nothing. -/
inductive Recording (child : Tree) (parentRun childRun : Measurement) (s : Session W) :
    Exploring W RootReport → Session W → Prop where
  | unestimated {failure} (hest : e.estimate f report.root d childRun parentRun = .error failure) :
    Recording child parentRun childRun s (throw failure) s
  | unwritten {est failure t} (hest : e.estimate f report.root d childRun parentRun = .ok est)
    (hemit : (emitMeasured b report.root d est).on s = (.error failure, t)) :
    Recording child parentRun childRun s (throw failure) t
  | written {est t text u} (hest : e.estimate f report.root d childRun parentRun = .ok est)
    (hemit : (emitMeasured b report.root d est).on s = (.ok (), t)) (hsay : (say text).on t = (.ok (), u)) :
    Recording child parentRun childRun s
      (e.grow b f child (some childRun) { report with pairs := report.pairs + 1 } rest) u

theorem record_recording (child : Tree) (parentRun childRun : Measurement) (s : Session W) :
    ∃ next t, e.Recording b f report d rest child parentRun childRun s next t ∧
      (e.record b f report d rest child parentRun childRun).on s = next.on t := by
  unfold record
  cases hest : e.estimate f report.root d childRun parentRun with
  | error failure => exact ⟨_, _, .unestimated hest, Exploring.on_bind_error (Exploring.on_demand _ s) _⟩
  | ok est =>
    rw [Exploring.on_bind_ok (Exploring.on_demand _ s)]
    rcases hemit : (emitMeasured b report.root d est).on s with ⟨failure | ⟨⟩, t⟩
    · exact ⟨_, _, .unwritten hest hemit, Exploring.on_bind_error hemit _⟩
    · rw [Exploring.on_bind_ok hemit]
      dsimp only
      split
      · exact ⟨_, _, .written hest hemit (Exploring.on_say _ t), Exploring.on_bind_ok (Exploring.on_say _ t) _⟩
      · exact ⟨_, _, .written hest hemit (Exploring.on_say_empty t), rfl⟩

end Decisions

section Ends

/-- Whether the trees differ by no more than noise, as the settings have it. -/
def noise (emptyRun fullRun : Measurement) : Except Failure Bool := do
  let threshold ← e.settings.noiseThreshold.toFloat "noise threshold"
  let sigmas ← e.settings.noiseSigmas.toFloat "noise sigmas"
  isNoise threshold sigmas emptyRun fullRun

variable {e} in
theorem noise_eq {threshold sigmas : Float}
    (hthreshold : e.settings.noiseThreshold.toFloat "noise threshold" = .ok threshold)
    (hsigmas : e.settings.noiseSigmas.toFloat "noise sigmas" = .ok sigmas) (emptyRun fullRun : Measurement) :
    e.noise emptyRun fullRun = isNoise threshold sigmas emptyRun fullRun := by
  rw [noise, hthreshold, hsigmas]
  rfl

variable (b : Benchmark) (f : Forest) (full : Tree)

theorem exploreTree_eq : e.exploreTree b f full = (do
    match ← caught (e.measureEnds b full) with
    | .error failure => cutShort b full.decisions { root := full.root, state := .measuring } failure
    | .ok (emptyRun, fullRun) =>
      if ← demand (e.noise emptyRun fullRun) then
        let reason := noiseReason emptyRun fullRun
        if e.verbose then say ("  " ++ full.root.text ++ ": short-circuited, " ++ reason ++ "\n")
        return { root := full.root, state := .shortCircuited, reason }
      else
        e.grow b f (.empty full.root) (some emptyRun) { root := full.root, state := .measuring } full.decisions) := by
  refine bind_congr fun o => ?_
  rcases o with failure | ⟨emptyRun, fullRun⟩
  · cases failure <;> rfl
  · simp only [noise, Exploring.demand_bind, bind_assoc]

variable {b f full} in
theorem on_exploreTree_of_error {s t : Session W} {failure : Failure}
    (h : (e.measureEnds b full).on s = (.error failure, t)) : (e.exploreTree b f full).on s =
      (cutShort b full.decisions { root := full.root, state := .measuring } failure).on t := by
  rw [exploreTree_eq, Exploring.on_bind_ok (Exploring.on_caught _ s), h]

/-- What becomes of a root after its empty and its full tree. -/
inductive Entry (s : Session W) : Exploring W RootReport → Session W → Prop where
  | unmeasured {failure t} (hends : (e.measureEnds b full).on s = (.error failure, t)) :
    Entry s (cutShort b full.decisions { root := full.root, state := .measuring } failure) t
  | unjudged {emptyRun fullRun t failure} (hends : (e.measureEnds b full).on s = (.ok (emptyRun, fullRun), t))
    (hnoise : e.noise emptyRun fullRun = .error failure) : Entry s (throw failure) t
  /-- The root is left alone after something was said, maybe nothing. -/
  | shortCircuited {emptyRun fullRun t text u}
    (hends : (e.measureEnds b full).on s = (.ok (emptyRun, fullRun), t))
    (hnoise : e.noise emptyRun fullRun = .ok true) (hsay : (say text).on t = (.ok (), u)) :
    Entry s (pure { root := full.root, state := .shortCircuited, reason := noiseReason emptyRun fullRun }) u
  | grown {emptyRun fullRun t} (hends : (e.measureEnds b full).on s = (.ok (emptyRun, fullRun), t))
    (hnoise : e.noise emptyRun fullRun = .ok false) :
    Entry s (e.grow b f (.empty full.root) (some emptyRun) { root := full.root, state := .measuring }
      full.decisions) t

theorem exploreTree_entry (s : Session W) : ∃ next t, e.Entry b f full s next t ∧
    (e.exploreTree b f full).on s = next.on t := by
  rcases hends : (e.measureEnds b full).on s with ⟨failure | ⟨emptyRun, fullRun⟩, t⟩
  · exact ⟨_, _, .unmeasured hends, e.on_exploreTree_of_error hends⟩
  · rw [exploreTree_eq, Exploring.on_bind_ok (Exploring.on_caught _ s), hends]
    dsimp only
    cases hnoise : e.noise emptyRun fullRun with
    | error failure => exact ⟨_, _, .unjudged hends hnoise, Exploring.on_bind_error (Exploring.on_demand _ t) _⟩
    | ok noise =>
      rw [Exploring.on_bind_ok (Exploring.on_demand _ t)]
      cases noise with
      | false => exact ⟨_, _, .grown hends hnoise, rfl⟩
      | true =>
        rw [if_pos rfl]
        split
        · exact ⟨_, _, .shortCircuited hends hnoise (Exploring.on_say _ t),
            Exploring.on_bind_ok (Exploring.on_say _ t) _⟩
        · exact ⟨_, _, .shortCircuited hends hnoise (Exploring.on_say_empty t), rfl⟩

end Ends

/-- What exploring a root comes to before any tree is measured. -/
inductive Opening (b : Benchmark) (f : Forest) (root : MethodId) (s : Session W) :
    Except Failure RootReport × Session W → Prop where
  | refused {fault : RootFault} (h : f.tree root = .error fault) : Opening b f root s (.error (.root fault), s)
  | bare {full : Tree} (h : f.tree root = .ok full) (hnone : full.decisions = []) :
    Opening b f root s (.ok ⟨root, .shortCircuited, 0, 0, 0, "no candidate decisions"⟩, s)
  /-- Every decision has a row with an estimate already. -/
  | explored {full : Tree} (h : f.tree root = .ok full) (hne : full.decisions ≠ [])
    (hall : ∀ d ∈ full.decisions, d.context ∈ s.explored) :
    Opening b f root s (.ok ⟨root, .exhausted, 0, full.size, 0, "all decisions already explored"⟩, s)
  | entered {full : Tree} (h : f.tree root = .ok full)
    (hleft : ∃ d ∈ full.decisions, d.context ∉ s.explored) :
    Opening b f root s ((e.exploreTree b f full).on s)

theorem exploreRoot_opening (b : Benchmark) (f : Forest) (root : MethodId) (s : Session W) :
    e.Opening b f root s ((e.exploreRoot b f root).on s) := by
  unfold exploreRoot
  cases htree : f.tree root with
  | error fault =>
    have hdemand : (demand ((Except.error fault : Except RootFault Tree).mapError Failure.root)).on s =
      (.error (.root fault), s) := rfl
    rw [Exploring.on_bind_error hdemand]
    exact .refused htree
  | ok full =>
    have hdemand : (demand ((Except.ok full : Except RootFault Tree).mapError Failure.root)).on s = (.ok full, s) :=
      rfl
    rw [Exploring.on_bind_ok hdemand, Exploring.on_bind_ok (Exploring.on_get s)]
    dsimp only
    split
    · rename_i hnone
      exact .bare htree (List.isEmpty_iff.1 hnone)
    · rename_i hne
      split
      · rename_i hall
        exact .explored htree (fun h => hne (List.isEmpty_iff.2 h)) (by simpa using hall)
      · rename_i hleft
        exact .entered htree (by simpa using hleft)

/-- A root is gone into if some decision of it is not explored. -/
theorem on_exploreRoot_of_left {b : Benchmark} {f : Forest} {root : MethodId} {s : Session W} {full : Tree}
    (hf : f.tree root = .ok full) (hleft : ∃ d ∈ full.decisions, d.context ∉ s.explored) :
    (e.exploreRoot b f root).on s = (e.exploreTree b f full).on s := by
  obtain ⟨d, hd, hnew⟩ := hleft
  have hopening := e.exploreRoot_opening b f root s
  generalize (e.exploreRoot b f root).on s = done at hopening
  cases hopening with
  | refused h => cases h.symm.trans hf
  | bare h hnone =>
    obtain rfl := Except.ok.inj (h.symm.trans hf)
    exact (List.not_mem_nil (hnone ▸ hd)).elim
  | explored h _ hall =>
    obtain rfl := Except.ok.inj (h.symm.trans hf)
    exact (hnew (hall d hd)).elim
  | entered h _ =>
    obtain rfl := Except.ok.inj (h.symm.trans hf)
    rfl

/-- An assertion on the visit of a root, by what the visit opens with. -/
theorem Opening.yields {b : Benchmark} {f : Forest} {root : MethodId} {s : Session W}
    {post : RootReport → Session W → Prop} {fail : Failure → Session W → Prop}
    (hrefused : ∀ fault, f.tree root = .error fault → fail (.root fault) s)
    (hbare : ∀ full, f.tree root = .ok full → full.decisions = [] →
      post ⟨root, .shortCircuited, 0, 0, 0, "no candidate decisions"⟩ s)
    (hexplored : ∀ full, f.tree root = .ok full → full.decisions ≠ [] →
      (∀ d ∈ full.decisions, d.context ∈ s.explored) →
      post ⟨root, .exhausted, 0, full.size, 0, "all decisions already explored"⟩ s)
    (hentered : ∀ full, f.tree root = .ok full → (∃ d ∈ full.decisions, d.context ∉ s.explored) →
      (e.exploreTree b f full).Yields s post fail) : (e.exploreRoot b f root).Yields s post fail := by
  have hopening := e.exploreRoot_opening b f root s
  generalize hon : (e.exploreRoot b f root).on s = done at hopening
  cases hopening with
  | refused h => exact .of_error hon (hrefused _ h)
  | bare h hnone => exact .of_ok hon (hbare _ h hnone)
  | explored h hne hall => exact .of_ok hon (hexplored _ h hne hall)
  | entered h hleft => exact .of_on hon (hentered _ h hleft)

section Roots

variable (b : Benchmark) (f : Forest) (root : MethodId) (rest : List MethodId)

/-- What is done about one root after an abort was asked for. -/
inductive Leg : Bool → Session W → Exploring W (List RootReport) → Session W → Prop where
  | aborted {s} : Leg true s (pure ({ root, state := .aborted } :: rest.map queued)) s
  | failed {s t failure} (hvisit : (e.exploreRoot b f root).on s = (.error failure, t)) :
    Leg false s (throw failure) t
  | cut {s t r} (hvisit : (e.exploreRoot b f root).on s = (.ok r, t)) (hr : r.isAborted = true) :
    Leg false s (pure (r :: rest.map queued)) t
  | visited {s t r} (hvisit : (e.exploreRoot b f root).on s = (.ok r, t)) (hr : r.isAborted = false) :
    Leg false s (do return r :: (← e.exploreRoots b f rest)) t

theorem exploreRoots_leg (s : Session W) : ∃ answer t, e.poll.on s = (.ok answer, t) ∧ ∃ next u,
    e.Leg b f root rest answer t next u ∧ (e.exploreRoots b f (root :: rest)).on s = next.on u := by
  refine ⟨_, _, e.on_poll s, ?_⟩
  rw [exploreRoots, Exploring.on_bind_ok (e.on_poll s)]
  generalize ({ s with world := (e.host.poll s.world).2 } : Session W).note _ = t
  cases (e.host.poll s.world).1 with
  | true => exact ⟨_, _, .aborted, rfl⟩
  | false =>
    rw [if_neg Bool.false_ne_true]
    rcases hvisit : (e.exploreRoot b f root).on t with ⟨failure | r, u⟩
    · exact ⟨_, _, .failed hvisit, Exploring.on_bind_error hvisit _⟩
    · rw [Exploring.on_bind_ok hvisit]
      cases hr : r.isAborted with
      | true => exact ⟨_, _, .cut hvisit hr, rfl⟩
      | false => exact ⟨_, _, .visited hvisit hr, rfl⟩

end Roots

section Benchmarks

variable (b : Benchmark)

/-- The report that exploring a benchmark leads to, and whether the exploration ends with it. A benchmark
that failed has one without roots, and something is said about it. -/
inductive Closing (s : Session W) : BenchmarkReport → Bool → Session W → Prop where
  | explored {report last t} (hexplore : (e.exploreBenchmark b).on s = (.ok report, t))
    (hlast : report.roots.any RootReport.isAborted = last) : Closing s report last t
  | skipped {failure t text u} (hexplore : (e.exploreBenchmark b).on s = (.error failure, t))
    (hverdict : verdict? failure = some .skip) (hsay : (say text).on t = (.ok (), u)) :
    Closing s { benchmark := b.name, error := some failure.message } false u
  | stopped {failure t text u} (hexplore : (e.exploreBenchmark b).on s = (.error failure, t))
    (hverdict : verdict? failure = some .stop) (hsay : (say text).on t = (.ok (), u)) :
    Closing s { benchmark := b.name, error := some failure.message } true u

variable (done : Keyed String BenchmarkReport) (rest : List Benchmark)

/-- What is done about one benchmark after an abort was asked for. -/
inductive Round : Bool → Session W → Exploring W (Keyed String BenchmarkReport × Bool) → Session W → Prop where
  | aborted {s} : Round true s (pure (done, true)) s
  | fatal {s t failure} (hexplore : (e.exploreBenchmark b).on s = (.error failure, t))
    (hverdict : verdict? failure = none) : Round false s (throw failure) t
  /-- It was the last benchmark, whether others are left or not. -/
  | last {s t report} (hclosing : e.Closing b s report true t) :
    Round false s (pure (done.put b.name report, true)) t
  | more {s t report} (hclosing : e.Closing b s report false t) :
    Round false s (e.exploreAll (done.put b.name report) rest) t

theorem exploreAll_round (s : Session W) : ∃ answer t, e.poll.on s = (.ok answer, t) ∧ ∃ next u,
    e.Round b done rest answer t next u ∧ (e.exploreAll done (b :: rest)).on s = next.on u := by
  refine ⟨_, _, e.on_poll s, ?_⟩
  rw [exploreAll, Exploring.on_bind_ok (e.on_poll s)]
  generalize ({ s with world := (e.host.poll s.world).2 } : Session W).note _ = t
  cases (e.host.poll s.world).1 with
  | true => exact ⟨_, _, .aborted, rfl⟩
  | false =>
    rw [if_neg Bool.false_ne_true, Exploring.on_bind_ok (Exploring.on_caught _ t)]
    rcases hexplore : (e.exploreBenchmark b).on t with ⟨failure | report, u⟩
    · have hsay (text : String) := Exploring.on_say text u
      dsimp only
      cases hverdict : verdict? failure with
      | none => exact ⟨_, _, .fatal hexplore hverdict, rfl⟩
      | some verdict =>
        cases verdict with
        | skip => exact ⟨_, _, .more (.skipped hexplore hverdict (hsay _)), Exploring.on_bind_ok (hsay _) _⟩
        | stop => exact ⟨_, _, .last (.stopped hexplore hverdict (hsay _)), Exploring.on_bind_ok (hsay _) _⟩
    · dsimp only
      cases hlast : report.roots.any RootReport.isAborted with
      | true => exact ⟨_, _, .last (.explored hexplore hlast), rfl⟩
      | false => exact ⟨_, _, .more (.explored hexplore hlast), rfl⟩

end Benchmarks

end InlineImpact.Exploration.Explorer
