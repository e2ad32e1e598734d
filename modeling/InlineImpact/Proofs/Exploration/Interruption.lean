import InlineImpact.Proofs.Exploration.Step

/-!
What an interruption leaves. Two explorations are compared, one on a host that nobody interrupts and one
on the same host with abort requests and vanishing executables. They keep step with each other until the
second one stops, and after that it hands out no more rows.
-/
namespace InlineImpact

/-- An abort was noticed, or an executable was not found. -/
def Failure.Stops : Failure → Prop
  | .aborted _ | .benchmark _ => True
  | _ => False

namespace Exploration

variable {W P α β : Type}

/-- No abort is ever requested of the host. -/
def Host.steady (h : Host W) : Host W := { h with poll := fun w => (false, w) }

/-- What breaks in on a host. It sees the host's state and has one of its own. -/
structure Interruption (W P : Type) where
  /-- An abort is requested. -/
  ask : W → P → Bool × P
  /-- The executable for a run is not found. -/
  lose : Benchmark → Configuration → W → P → Option BenchmarkFault × P

/-- The host, with its own abort requests replaced by those of the interruption. -/
def Host.interrupted (h : Host W) (i : Interruption W P) : Host (W × P) where
  probe := h.probe
  run settings veryVerbose b c workspace := fun (w, p) =>
    match i.lose b c w p with
    | (some fault, p) => ({ outcome := .error (.benchmark fault), workspace }, (w, p))
    | (none, p) =>
      let (trial, w) := h.run settings veryVerbose b c workspace w
      (trial, (w, p))
  load path interval workspace := fun (w, p) =>
    let (outcome, w) := h.load path interval workspace w
    (outcome, (w, p))
  poll := fun (w, p) =>
    let (answer, p) := i.ask w p
    (answer, (w, p))

namespace Explorer

def steady (e : Explorer W) : Explorer W := { e with host := e.host.steady }

def interrupted (e : Explorer W) (i : Interruption W P) : Explorer (W × P) :=
  ⟨e.host.interrupted i, e.settings, e.verbose, e.veryVerbose⟩

end Explorer

/-- The session as an interruption in the state `p` finds it. -/
def Session.beside (s : Session W) (p : P) : Session (W × P) :=
  ⟨(s.world, p), s.workspace, s.dataset, s.measurements, s.explored, s.journal, s.output⟩

namespace Exploring

/-- The operation ends everything: it fails by a stop, or what it gives says so. -/
def Stopping (final : α → Prop) : Except Failure α → Prop
  | .ok a => final a
  | .error f => f.Stops

/-- From every session the operation comes to a stop and hands out no row. -/
def Halts (final : α → Prop) (x : Exploring W α) : Prop :=
  ∀ s, Stopping final (x.on s).1 ∧ (x.on s).2.rows = s.rows

/-- The interrupted operation `x` does what `y` does, or it comes to a stop with fewer rows. -/
structure Follows (final : α → Prop) (x : Exploring (W × P) α) (y : Exploring W α) : Prop where
  grows : ∀ s, s.rows <+: (y.on s).2.rows
  keeps_step : ∀ s p, (∃ q, x.on (s.beside p) = ((y.on s).1, (y.on s).2.beside q)) ∨
    Stopping final (x.on (s.beside p)).1 ∧ (x.on (s.beside p)).2.rows <+: (y.on s).2.rows

namespace Follows

variable {final : α → Prop} {final' : β → Prop} {x : Exploring (W × P) α} {y : Exploring W α}
  {k : α → Exploring (W × P) β} {l : α → Exploring W β}

/-- An operation that the interruption cannot touch. -/
theorem of_same (hg : ∀ s, s.rows <+: (y.on s).2.rows)
    (h : ∀ s p, x.on (s.beside p) = ((y.on s).1, (y.on s).2.beside p)) : Follows final x y :=
  ⟨hg, fun s p => .inl ⟨p, h s p⟩⟩

theorem of_still (hy : ∀ s, (y.on s).2 = s)
    (h : ∀ s p, x.on (s.beside p) = ((y.on s).1, s.beside p)) : Follows final x y :=
  of_same (fun s => (hy s).symm ▸ List.prefix_rfl) fun s p => by rw [h, hy]

theorem pure (a : α) : Follows final (pure a : Exploring (W × P) α) (pure a) :=
  of_still (fun _ => rfl) fun _ _ => rfl

theorem throw (f : Failure) : Follows final (throw f : Exploring (W × P) α) (throw f) :=
  of_still (fun _ => rfl) fun _ _ => rfl

theorem demand (r : Except Failure α) : Follows final (demand r : Exploring (W × P) α) (demand r) :=
  of_still (fun _ => rfl) fun _ _ => rfl

/-- Two operations keep step if both of their parts do, and if nothing is done after a stop. -/
theorem bind (hx : Follows final x y) (hk : ∀ a, Follows final' (k a) (l a))
    (hstop : ∀ a, final a → Halts final' (k a)) : Follows final' (x >>= k) (y >>= l) := by
  have hgrows (s : Session W) : (y.on s).2.rows <+: ((y >>= l).on s).2.rows := by
    rcases hy : y.on s with ⟨_ | a, t⟩
    · exact ⟨[], by rw [on_bind_error hy, List.append_nil]⟩
    · rw [on_bind_ok hy]
      exact (hk a).grows t
  refine ⟨fun s => (hx.grows s).trans (hgrows s), fun s p => ?_⟩
  rcases hx.keeps_step s p with ⟨q, hq⟩ | ⟨hs, hrows⟩
  · rcases hy : y.on s with ⟨_ | a, t⟩ <;> rw [hy] at hq
    · exact .inl ⟨q, by rw [on_bind_error hq, on_bind_error hy]⟩
    · rw [on_bind_ok hq, on_bind_ok hy]
      exact (hk a).keeps_step t q
  · have hle := hrows.trans (hgrows s)
    rcases ho : x.on (s.beside p) with ⟨_ | a, t⟩ <;> rw [ho] at hs hle
    · rw [on_bind_error ho]
      exact .inr ⟨hs, hle⟩
    · rw [on_bind_ok ho]
      obtain ⟨hs', ht⟩ := hstop a hs t
      exact .inr ⟨hs', ht ▸ hle⟩

/-- After a part that cannot stop. -/
theorem then_ (hx : Follows (fun _ => False) x y) (hk : ∀ a, Follows final' (k a) (l a)) :
    Follows final' (x >>= k) (y >>= l) :=
  hx.bind hk fun _ => False.elim

theorem get [Nonempty P] {k : Session (W × P) → Exploring (W × P) β} {l : Session W → Exploring W β}
    (h : ∀ s p, Follows final' (k (s.beside p)) (l s)) : Follows final' (get >>= k) (get >>= l) where
  grows s := ‹Nonempty P›.elim fun p => (h s p).grows s
  keeps_step s p := (h s p).keeps_step s p

/-- What is caught can say that it is a stop. -/
theorem caught (hx : Follows final x y) : Follows (Stopping final) (caught x) (caught y) where
  grows := hx.grows
  keeps_step s p := by
    rcases hx.keeps_step s p with ⟨q, hq⟩ | h
    · exact .inl ⟨q, by simp [hq]⟩
    · exact .inr h

/-- What is done after a failure that was caught, and after none. -/
theorem caught_bind {k : Except Failure α → Exploring (W × P) β} {l : Except Failure α → Exploring W β}
    (hx : Follows final x y) (hk : ∀ o, Follows final' (k o) (l o))
    (hok : ∀ a, final a → Halts final' (k (.ok a)))
    (haborted : ∀ point, Halts final' (k (.error (.aborted point))))
    (hlost : ∀ fault, Halts final' (k (.error (.benchmark fault)))) :
    Follows final' (Exploration.caught x >>= k) (Exploration.caught y >>= l) := by
  refine hx.caught.bind hk fun o ho => ?_
  rcases o with failure | a
  · cases failure with
    | aborted point => exact haborted point
    | benchmark fault => exact hlost fault
    | _ => exact ho.elim
  · exact hok a ho

theorem ite {c : Prop} [Decidable c] {x' : Exploring (W × P) α} {y' : Exploring W α}
    (h : Follows final x y) (h' : Follows final x' y') :
    Follows final (if c then x else x') (if c then y else y') := by
  split
  · exact h
  · exact h'

/-- What only changes other parts of a session than the journal and the host's state. -/
theorem modify {final : PUnit → Prop} {f : Session (W × P) → Session (W × P)} {g : Session W → Session W}
    (hg : ∀ s, (g s).rows = s.rows) (h : ∀ s p, f (s.beside p) = (g s).beside p) :
    Follows final (modify f : Exploring (W × P) PUnit) (modify g) :=
  of_same (fun s => (hg s).symm ▸ List.prefix_rfl) fun s p => by simp [h]

end Follows

end Exploring

namespace Explorer

open Exploring

section Elementary

variable (e : Explorer W) (i : Interruption W P)

theorem say_follows {final : Unit → Prop} (text : String) :
    Follows final (say text : Exploring (W × P) Unit) (say text) :=
  .modify (fun _ => rfl) fun _ _ => rfl

theorem emit_follows {final : Unit → Prop} (row : Dataset.Row) :
    Follows final (emit row : Exploring (W × P) Unit) (emit row) := by
  refine .of_same (fun s => ?_) fun s p => ?_
  · rcases on_emit row s with ⟨ds, ws, hm⟩ | ⟨f, ds, ws, hm⟩ <;> rw [hm]
    · exact ⟨[row], (rows_of_journal (.emitted row) rfl).symm⟩
    · exact List.prefix_rfl
  · rcases hd : s.dataset with _ | w
    · simp [Exploring.on, ExceptT.run, StateT.run, emit, Session.beside, Session.note, hd]
    · rcases ha : w.append s.workspace row with ⟨_ | _, w', ws⟩ <;>
        simp [Exploring.on, ExceptT.run, StateT.run, emit, Session.beside, Session.note, hd, ha]

theorem isExplored_follows {final : Bool → Prop} (c : Decision.Context) :
    Follows final (isExplored c : Exploring (W × P) Bool) (isExplored c) :=
  .of_still (fun _ => rfl) fun _ _ => rfl

theorem markExplored_follows {final : Unit → Prop} (c : Decision.Context) :
    Follows final (markExplored c : Exploring (W × P) Unit) (markExplored c) := by
  refine .modify (fun s => ?_) fun s p => ?_
  · split <;> rfl
  · by_cases h : s.explored.contains c = true <;> simp only [Session.beside, h] <;> rfl

theorem poll_follows : Follows (· = true) (e.interrupted i).poll e.steady.poll := by
  have hrows (s : Session W) : (e.steady.poll.on s).2.rows = s.rows :=
    (rows_of_journal (.polled _) rfl).trans (List.append_nil _)
  refine ⟨fun s => (hrows s).symm ▸ List.prefix_rfl, fun s p => ?_⟩
  rcases h : i.ask s.world p with ⟨answer, q⟩
  have hx : (e.interrupted i).poll.on (s.beside p) = (.ok answer, (s.beside q).note (.polled answer)) := by
    simp [interrupted, Host.interrupted, Session.beside, h]
  rw [hx]
  cases answer with
  | false => exact .inl ⟨q, rfl⟩
  | true =>
    have hx' : ((s.beside q).note (.polled true)).rows = s.rows :=
      (rows_of_journal (.polled true) rfl).trans (List.append_nil _)
    exact .inr ⟨rfl, by simp only [hrows, hx', List.prefix_rfl]⟩

/-- An operation that halts if an abort is requested. -/
theorem poll_bind_follows {final : β → Prop} {k : Bool → Exploring (W × P) β}
    {l : Bool → Exploring W β} (hk : ∀ answer, Follows final (k answer) (l answer))
    (hstop : Halts final (k true)) :
    Follows final ((e.interrupted i).poll >>= k) (e.steady.poll >>= l) :=
  (e.poll_follows i).bind hk (by rintro _ rfl; exact hstop)

theorem load_follows {final : Except Failure Measurement → Prop} (path : String) :
    Follows final (caught ((e.interrupted i).load path)) (caught (e.steady.load path)) :=
  .of_same (fun _ => ⟨[], (rows_of_journal (.loaded _) rfl).symm⟩) fun _ _ => rfl

theorem launch_follows {final : CompletedRun → Prop} (b : Benchmark) (c : Configuration) :
    Follows final ((e.interrupted i).launch b c) (e.steady.launch b c) := by
  have hrows (s : Session W) : ((e.steady.launch b c).on s).2.rows = s.rows :=
    (rows_of_journal (.ran b c _) rfl).trans (List.append_nil _)
  refine ⟨fun s => (hrows s).symm ▸ List.prefix_rfl, fun s p => ?_⟩
  rcases h : i.lose b c s.world p with ⟨_ | fault, q⟩
  · exact .inl ⟨q, by simp [Exploring.on, ExceptT.run, StateT.run, launch, interrupted,
      Host.interrupted, steady, Host.steady, Session.beside, Session.note, h]⟩
  · have hx : (((e.interrupted i).launch b c).on (s.beside p)).1 = .error (.benchmark fault) := by
      simp [Exploring.on, ExceptT.run, StateT.run, launch, interrupted, Host.interrupted,
        Session.beside, h]
    have hx' : (((e.interrupted i).launch b c).on (s.beside p)).2.rows = s.rows :=
      (rows_of_journal (.ran b c _) rfl).trans (List.append_nil _)
    exact .inr ⟨by rw [hx]; trivial, by simp only [hrows, hx', List.prefix_rfl]⟩

end Elementary

section Measuring

variable (e : Explorer W) (i : Interruption W P)

/-- Nothing that measuring gives is final. It can only fail by a stop. -/
abbrev Never (_ : α) : Prop := False

theorem attempt_follows (b : Benchmark) (c : Configuration) :
    Follows Never ((e.interrupted i).attempt b c) (e.steady.attempt b c) := by
  refine (e.launch_follows i b c).then_ fun run => (e.load_follows i run.eventsFile).then_ fun o => ?_
  cases o with
  | ok m => exact .pure _
  | error failure => dsimp only; split <;> exact .throw _

theorem attempts_follows (b : Benchmark) (c : Configuration) (number left : Nat) :
    Follows Never ((e.interrupted i).attempts b c number left) (e.steady.attempts b c number left) := by
  induction left generalizing number with
  | zero =>
    unfold attempts
    refine (e.attempt_follows i b c).caught_bind (fun o => ?_) (fun _ h => h.elim)
      (fun _ _ => ⟨trivial, rfl⟩) fun _ _ => ⟨trivial, rfl⟩
    rcases o with f | r
    · cases f with
      | run fault code => exact (say_follows _).then_ fun _ => .throw _
      | _ => exact .throw _
    · exact .pure _
  | succ left ih =>
    unfold attempts
    refine (e.attempt_follows i b c).caught_bind (fun o => ?_) (fun _ h => h.elim)
      (fun _ _ => ⟨trivial, rfl⟩) fun _ _ => ⟨trivial, rfl⟩
    rcases o with f | r
    · cases f with
      | run fault code =>
        have hretry : Follows Never
            (say (retryNote number (e.interrupted i).settings.maxRetries b c) >>= fun _ =>
              (e.interrupted i).attempts b c (number + 1) left)
            (say (retryNote number e.steady.settings.maxRetries b c) >>= fun _ =>
              e.steady.attempts b c (number + 1) left) :=
          (say_follows _).then_ fun _ => ih _
        exact (say_follows _).then_ fun _ => e.poll_bind_follows i
          (fun _ => .ite (Follows.then_ (.throw _) fun _ => hretry) hretry) fun _ => ⟨trivial, rfl⟩
      | _ => exact .throw _
    · exact .pure _

theorem run_follows (b : Benchmark) (c : Configuration) :
    Follows Never ((e.interrupted i).run b c) (e.steady.run b c) :=
  .ite (.throw _) (e.attempts_follows i b c 1 _)

theorem remember_follows {final : Unit → Prop} (b : Benchmark) (c : Configuration) (m : Measurement) :
    Follows final (remember b c m : Exploring (W × P) Unit) (remember b c m) :=
  .modify (fun _ => rfl) fun _ _ => rfl

variable [Nonempty P]

theorem measure_follows (b : Benchmark) (c : Configuration) :
    Follows Never ((e.interrupted i).measure b c) (e.steady.measure b c) := by
  refine .get fun s p => ?_
  simp only [Session.beside]
  split
  · exact .pure _
  · exact (e.run_follows i b c).then_ fun r => (remember_follows b c r.2).then_ fun _ => .pure _

theorem prepare_follows (t : Tree) : Follows Never ((e.interrupted i).prepare t) (e.steady.prepare t) := by
  refine .get fun s p => (Follows.demand _).then_ fun r => ?_
  obtain ⟨c, workspace⟩ := r
  exact (Follows.modify (fun _ => (rows_of_journal (.prepared t) rfl).trans (List.append_nil _))
    fun _ _ => rfl).then_ fun _ => .pure _

theorem measureTree_follows (b : Benchmark) (t : Tree) :
    Follows Never ((e.interrupted i).measureTree b t) (e.steady.measureTree b t) :=
  (e.prepare_follows i t).then_ fun c => e.measure_follows i b c

theorem loadForest_follows (run : CompletedRun) :
    Follows Never (loadForest run : Exploring (W × P) Forest) (loadForest run) :=
  .get fun _ _ => (Follows.demand _).then_ fun f =>
    (Follows.modify (fun _ => (rows_of_journal (.reported f) rfl).trans (List.append_nil _))
      fun _ _ => rfl).then_ fun _ => .pure _

theorem capture_follows (b : Benchmark) (c : Configuration) :
    Follows Never ((e.interrupted i).capture b c) (e.steady.capture b c) :=
  (e.run_follows i b c).then_ fun r => (remember_follows b c r.2).then_ fun _ =>
    (loadForest_follows r.1).then_ fun _ => .pure _

theorem fullForest_follows (b : Benchmark) :
    Follows Never ((e.interrupted i).fullForest b) (e.steady.fullForest b) :=
  (e.capture_follows i b _).then_ fun _ =>
    .ite ((say_follows _).then_ fun _ => .pure _) (.pure _)

theorem measureEnds_follows (b : Benchmark) (full : Tree) :
    Follows Never ((e.interrupted i).measureEnds b full) (e.steady.measureEnds b full) := by
  have hfull (empty : Measurement) : Follows Never
      ((e.interrupted i).measureTree b full >>= fun m => Pure.pure (empty, m))
      (e.steady.measureTree b full >>= fun m => Pure.pure (empty, m)) :=
    (e.measureTree_follows i b full).then_ fun _ => .pure _
  exact (e.measureTree_follows i b _).then_ fun empty => e.poll_bind_follows i
    (fun _ => .ite (Follows.then_ (.throw _) fun _ => hfull empty) (hfull empty)) fun _ => ⟨trivial, rfl⟩

theorem measurePair_follows (b : Benchmark) (parent : Tree) (known : Option Measurement) (child : Tree) :
    Follows Never ((e.interrupted i).measurePair b parent known child)
      (e.steady.measurePair b parent known child) := by
  have hchild (r : Measurement) : Follows Never
      ((e.interrupted i).measureTree b child >>= fun m => Pure.pure (r, m))
      (e.steady.measureTree b child >>= fun m => Pure.pure (r, m)) :=
    (e.measureTree_follows i b child).then_ fun _ => .pure _
  cases known with
  | some m => exact Follows.then_ (.pure _) hchild
  | none => exact (e.measureTree_follows i b parent).then_ hchild

end Measuring

section Exploring

variable (e : Explorer W) (i : Interruption W P)

theorem emitMissing_follows {final : Nat → Prop} (b : Benchmark) (root : MethodId) (ds : List Decision) :
    Follows final (emitMissing b root ds : Exploring (W × P) Nat) (emitMissing b root ds) := by
  induction ds generalizing final with
  | nil => exact .pure _
  | cons d rest ih =>
    exact (isExplored_follows d.context).then_ fun _ =>
      .ite ih ((emit_follows _).then_ fun _ => ih.then_ fun _ => .pure _)

theorem giveUp_follows {final : RootReport → Prop} (b : Benchmark) (ds : List Decision)
    (report : RootReport) (fault : RunFault) :
    Follows final (giveUp b ds report fault : Exploring (W × P) RootReport)
      (giveUp b ds report fault) :=
  (say_follows _).then_ fun _ => (emitMissing_follows b _ ds).then_ fun _ => .pure _

theorem cutShort_follows {final : RootReport → Prop} (b : Benchmark) (ds : List Decision)
    (report : RootReport) (failure : Failure) :
    Follows final (cutShort b ds report failure : Exploring (W × P) RootReport) (cutShort b ds report failure) := by
  cases failure with
  | aborted point => exact .pure _
  | run fault code => exact giveUp_follows b ds report fault
  | _ => exact .throw _

variable [Nonempty P]

theorem grow_follows (b : Benchmark) (f : Forest) (tree : Tree) (parent : Option Measurement)
    (report : RootReport) (ds : List Decision) :
    Follows (·.isAborted = true) ((e.interrupted i).grow b f tree parent report ds)
      (e.steady.grow b f tree parent report ds) := by
  induction ds generalizing tree parent report with
  | nil => exact .pure _
  | cons d rest ih =>
    rw [grow_cons, grow_cons]
    refine e.poll_bind_follows i (fun answer => ?_) fun _ => ⟨rfl, rfl⟩
    refine .ite (.pure _) ((Follows.demand _).then_ fun child =>
      (isExplored_follows d.context).then_ fun _ => .ite (ih ..) ?_)
    refine (e.measurePair_follows i b tree parent child).caught_bind (fun o => ?_) (fun _ h => h.elim)
      (fun _ _ => ⟨rfl, rfl⟩) fun _ _ => ⟨trivial, rfl⟩
    rcases o with failure | ⟨parentRun, childRun⟩
    · exact cutShort_follows b _ report failure
    · exact (Follows.demand _).then_ fun est => (Follows.then_ (emit_follows _) fun _ =>
        markExplored_follows _).then_ fun _ => .ite ((say_follows _).then_ fun _ => ih ..) (ih ..)

theorem exploreTree_follows (b : Benchmark) (f : Forest) (full : Tree) :
    Follows (·.isAborted = true) ((e.interrupted i).exploreTree b f full)
      (e.steady.exploreTree b f full) := by
  rw [exploreTree_eq, exploreTree_eq]
  refine (e.measureEnds_follows i b full).caught_bind (fun o => ?_) (fun _ h => h.elim)
    (fun _ _ => ⟨rfl, rfl⟩) fun _ _ => ⟨trivial, rfl⟩
  rcases o with failure | ⟨emptyRun, fullRun⟩
  · exact cutShort_follows b _ _ failure
  · exact (Follows.demand _).then_ fun _ => .ite (.ite ((say_follows _).then_ fun _ => .pure _) (.pure _))
      (e.grow_follows i b f _ _ _ _)

theorem exploreRoot_follows (b : Benchmark) (f : Forest) (root : MethodId) :
    Follows (·.isAborted = true) ((e.interrupted i).exploreRoot b f root)
      (e.steady.exploreRoot b f root) :=
  (Follows.demand _).then_ fun full => .get fun _ _ =>
    .ite (.pure _) (.ite (.pure _) (e.exploreTree_follows i b f full))

theorem exploreRoots_follows (b : Benchmark) (f : Forest) (roots : List MethodId) :
    Follows (·.any RootReport.isAborted = true) ((e.interrupted i).exploreRoots b f roots)
      (e.steady.exploreRoots b f roots) := by
  induction roots with
  | nil => exact .pure _
  | cons root rest ih =>
    refine e.poll_bind_follows i (fun answer => .ite (.pure _) ?_) fun _ => ⟨rfl, rfl⟩
    refine (e.exploreRoot_follows i b f root).bind (fun report => .ite (.pure _) ?_)
      fun report h s => ?_
    · exact ih.bind (fun _ => .pure _) fun reports h s => ⟨by simp [Stopping, h], rfl⟩
    · rw [if_pos h]
      exact ⟨by simp [Stopping, h], rfl⟩

theorem exploreBenchmark_follows (b : Benchmark) :
    Follows (·.roots.any RootReport.isAborted = true) ((e.interrupted i).exploreBenchmark b)
      (e.steady.exploreBenchmark b) :=
  (e.fullForest_follows i b).then_ fun r => (say_follows _).then_ fun _ =>
    (e.exploreRoots_follows i b r.1 _).bind (fun _ => .pure _) fun _ h _ =>
      ⟨by simp [Stopping, h], rfl⟩

theorem exploreAll_follows (reports : Keyed String BenchmarkReport) (bs : List Benchmark) :
    Follows (·.2 = true) ((e.interrupted i).exploreAll reports bs) (e.steady.exploreAll reports bs) := by
  induction bs generalizing reports with
  | nil => exact .pure _
  | cons b rest ih =>
    refine e.poll_bind_follows i (fun answer => .ite (.pure _) ?_) fun _ => ⟨rfl, rfl⟩
    refine (e.exploreBenchmark_follows i b).caught_bind (fun o => ?_) (fun report h s => ?_)
      (fun _ _ => ⟨rfl, rfl⟩) fun _ _ => ⟨trivial, rfl⟩
    · rcases o with failure | report
      · dsimp only
        split
        · exact (say_follows _).then_ fun _ => ih _
        · exact (say_follows _).then_ fun _ => .pure _
        · exact .throw _
      · exact .ite (.pure _) (ih _)
    · dsimp only
      rw [if_pos h]
      exact ⟨rfl, rfl⟩

theorem explore_follows (bs : List Benchmark) :
    Follows (·.aborted = true) ((e.interrupted i).explore bs) (e.steady.explore bs) :=
  (Follows.demand _).then_ fun _ => .get fun _ _ => (e.exploreAll_follows i [] bs).bind
    (fun _ => .get fun _ _ => .pure _) fun _ h _ => ⟨h, rfl⟩

end Exploring

end Explorer

/-- Abort requests at any points and executables that vanish at any run cut the rows of an exploration
off, and do no more. From one session, whatever was done in it, the rows that are handed out when
interrupted are the first of those that are handed out when nothing breaks in; and there are fewer only
if the exploration tells of an abort or fails by a stop. -/
theorem interrupted_rows (e : Explorer W) (i : Interruption W P) (bs : List Benchmark) (s : Session W)
    (p : P) :
    let interrupted := ((e.interrupted i).explore bs).on (s.beside p)
    ∃ emitted lost, interrupted.2.rows = s.rows ++ emitted ∧
      ((e.steady.explore bs).on s).2.rows = s.rows ++ (emitted ++ lost) ∧
      (lost ≠ [] → Exploring.Stopping (·.aborted = true) interrupted.1) := by
  intro interrupted
  have : Nonempty P := ⟨p⟩
  obtain ⟨emitted, hemitted, -⟩ : ∃ emitted, interrupted.2.rows = s.rows ++ emitted ∧ _ :=
    Step.run_rows ((e.interrupted i).explore_within bs (p := fun _ _ => True) (fun _ _ _ => trivial) _)
  rcases (e.explore_follows i bs).keeps_step s p with ⟨q, hq⟩ | ⟨hstop, lost, hlost⟩
  · have hrows : interrupted.2.rows = ((e.steady.explore bs).on s).2.rows := by
      simp only [interrupted, hq]
      rfl
    exact ⟨emitted, [], hemitted, by rw [List.append_nil, ← hrows, hemitted], fun h => (h rfl).elim⟩
  · refine ⟨emitted, lost, hemitted, ?_, fun _ => hstop⟩
    rw [← hlost, ← List.append_assoc, ← hemitted]

end Exploration

end InlineImpact
