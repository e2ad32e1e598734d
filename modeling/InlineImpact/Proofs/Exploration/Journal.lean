import InlineImpact.Proofs.Exploration.Continuation
import InlineImpact.Proofs.Replay

/-!
What a journal tells: which tree was written out last, and which runs counted. The attempts of one run
make up a block of the journal; `measureTree_spec` says what measuring a tree adds to a session.
-/
namespace InlineImpact.Exploration

variable {W : Type}

def Event.tree? : Event → Option Tree
  | prepared t => some t
  | _ => none

namespace Journal

/-- The tree that was written out last. -/
def replayed (J : List Event) : Option Tree := (J.filterMap Event.tree?).getLast?

/-- After the events `A` there was a run of the benchmark under the configuration, and its capture
gave this measurement. -/
def CountedAfter (A J : List Event) (b : Benchmark) (c : Configuration) (m : Measurement) : Prop :=
  ∃ run B, J = A ++ .ran b c (.ok run) :: .loaded (.ok m) :: B

theorem replayed_append_of_silent (J : List Event) {K : List Event}
    (h : K.filterMap Event.tree? = []) : replayed (J ++ K) = replayed J := by
  simp [replayed, h]

/-- What comes first does not matter if a tree was written out after it. -/
theorem replayed_append_of_some (J : List Event) {K : List Event} {t : Tree}
    (h : replayed K = some t) : replayed (J ++ K) = some t := by
  simp only [replayed, List.filterMap_append, List.getLast?_append] at h ⊢
  rw [h]
  rfl

theorem mem_of_replayed {J : List Event} {t : Tree} (h : replayed J = some t) :
    .prepared t ∈ J := by
  have hm := List.mem_of_getLast? h
  obtain ⟨ev, hev, ht⟩ := List.mem_filterMap.1 hm
  cases ev <;> simp [Event.tree?] at ht
  exact ht ▸ hev

theorem CountedAfter.append {A J : List Event} {b : Benchmark} {c : Configuration} {m : Measurement}
    (h : CountedAfter A J b c m) (K : List Event) : CountedAfter A (J ++ K) b c m := by
  obtain ⟨run, B, rfl⟩ := h
  exact ⟨run, B ++ K, by simp⟩

/-- A run counts once. -/
theorem CountedAfter.measurement_eq {A J : List Event} {b b' : Benchmark} {c c' : Configuration}
    {m m' : Measurement} (h : CountedAfter A J b c m) (h' : CountedAfter A J b' c' m') : m = m' := by
  obtain ⟨run, B, hJ⟩ := h
  obtain ⟨run', B', hJ'⟩ := h'
  obtain ⟨-, rfl, -⟩ : (b = b' ∧ c = c' ∧ run = run') ∧ m = m' ∧ B = B' := by
    simpa using List.append_cancel_left (hJ.symm.trans hJ')
  rfl

theorem CountedAfter.of_append {A J : List Event} {b : Benchmark} {c : Configuration}
    {m : Measurement} (h : CountedAfter A J b c m) (K : List Event) :
    CountedAfter (K ++ A) (K ++ J) b c m := by
  obtain ⟨run, B, rfl⟩ := h
  exact ⟨run, B, by simp⟩

/-- An event of two stretches stands in the second or in the first. -/
theorem split_append {A B J K : List Event} {ev : Event} (h : J ++ K = A ++ ev :: B) :
    (∃ A', A = J ++ A' ∧ K = A' ++ ev :: B) ∨ ∃ J', J = A ++ ev :: J' ∧ B = J' ++ K := by
  rcases List.append_eq_append_iff.1 h with ⟨A', hA, hK⟩ | ⟨J', hJ, hB⟩
  · exact .inl ⟨A', hA, hK⟩
  · rcases J' with _ | ⟨ev', J'⟩
    · exact .inl ⟨[], by simpa using hJ.symm, hB.symm⟩
    · obtain ⟨rfl, rfl⟩ : ev = ev' ∧ B = J' ++ K := by simpa using hB
      exact .inr ⟨J', hJ, rfl⟩

/-- A run that counts is two events. -/
theorem not_countedAfter_singleton (A : List Event) (ev : Event) (b : Benchmark) (c : Configuration)
    (m : Measurement) : ¬CountedAfter A [ev] b c m := by
  rintro ⟨run, B, h⟩
  rcases A with _ | ⟨ev', A⟩ <;> simp at h

/-- A run and the reading of its capture do not fall apart, unless a journal is cut between them. -/
theorem CountedAfter.append_cases {A J K : List Event} {b : Benchmark} {c : Configuration}
    {m : Measurement} (h : CountedAfter A (J ++ K) b c m) (hK : ∀ r, K.head? ≠ some (.loaded r)) :
    CountedAfter A J b c m ∨ ∃ A', A = J ++ A' ∧ CountedAfter A' K b c m := by
  obtain ⟨run, B, h⟩ := h
  rcases split_append h with ⟨A', rfl, hA⟩ | ⟨J', rfl, hJ⟩
  · exact .inr ⟨A', rfl, run, B, hA⟩
  · rcases J' with _ | ⟨ev, J'⟩
    · obtain rfl : _ = K := hJ
      exact (hK _ rfl).elim
    · obtain ⟨rfl, -⟩ : .loaded (.ok m) = ev ∧ B = J' ++ K := by simpa using hJ
      exact .inl ⟨run, J', rfl⟩

end Journal

open Journal

/-- The session `t` comes after `s` and some more events; nothing else was learned. -/
structure Session.Adds (s : Session W) (J : List Event) (t : Session W) : Prop where
  journal : t.journal = s.journal ++ J
  measurements : t.measurements = s.measurements
  explored : t.explored = s.explored

/-- The session with a measurement remembered. -/
def Session.remember (s : Session W) (b : Benchmark) (c : Configuration) (m : Measurement) :
    Session W :=
  { s with measurements := s.measurements.put (b.name, c.name) m }

theorem Session.Adds.trans {s t u : Session W} {J K : List Event} (h : s.Adds J t)
    (h' : t.Adds K u) : s.Adds (J ++ K) u :=
  ⟨by rw [h'.1, h.1, List.append_assoc], h'.2.trans h.2, h'.3.trans h.3⟩

theorem Session.Adds.remember {s t : Session W} {J : List Event} (h : s.Adds J t) (b : Benchmark)
    (c : Configuration) (m : Measurement) : (s.remember b c m).Adds J (t.remember b c m) :=
  ⟨h.1, congrArg (Keyed.put (b.name, c.name) m) h.2, h.3⟩

theorem Session.Adds.of_say {s t : Session W} {text : String} (h : (say text).on s = (.ok (), t)) : s.Adds [] t := by
  rw [Exploring.eq_of_say h]
  exact ⟨(List.append_nil _).symm, rfl, rfl⟩

theorem Session.Adds.of_poll {e : Explorer W} {s t : Session W} {answer : Bool}
    (h : e.poll.on s = (.ok answer, t)) : s.Adds [.polled answer] t := by
  obtain ⟨hanswer, rfl⟩ := Prod.mk.inj h
  obtain rfl := Except.ok.inj hanswer
  exact ⟨rfl, rfl, rfl⟩

section Attempts

variable (b : Benchmark) (c : Configuration)

/-- The events of one attempt, and what it came to. -/
inductive Attempt : List Event → Except Failure (CompletedRun × Measurement) → Prop where
  | failed (f : Failure) : Attempt [.ran b c (.error f)] (.error f)
  | unread (run : CompletedRun) (f f' : Failure) :
    Attempt [.ran b c (.ok run), .loaded (.error f)] (.error f')
  | counted (run : CompletedRun) (m : Measurement) :
    Attempt [.ran b c (.ok run), .loaded (.ok m)] (.ok (run, m))

/-- The events of attempts with a number of retries to go. Before each retry an abort is asked for. -/
inductive Block : Nat → List Event → Except Failure (CompletedRun × Measurement) → Prop where
  | last {left J o} (h : Attempt b c J o) : Block left J o
  | aborted {left J fault code} (h : Attempt b c J (.error (.run fault code))) :
    Block (left + 1) (J ++ [.polled true]) (.error (.aborted (.afterFailure b.name c.name)))
  | again {left J K fault code o} (h : Attempt b c J (.error (.run fault code)))
    (h' : Block left K o) : Block (left + 1) (J ++ .polled false :: K) o

end Attempts

theorem Attempt.eq_of_countedAfter {b b' : Benchmark} {c c' : Configuration} {A J : List Event}
    {o : Except Failure (CompletedRun × Measurement)} {m : Measurement} (h : Attempt b c J o)
    (hm : CountedAfter A J b' c' m) : b' = b ∧ c' = c ∧
      ∃ run, o = .ok (run, m) ∧ J = A ++ [.ran b c (.ok run), .loaded (.ok m)] := by
  obtain ⟨run', B, hm⟩ := hm
  cases h <;> rcases A with _ | ⟨ev, _ | ⟨ev', A⟩⟩ <;> simp at hm
  obtain ⟨⟨rfl, rfl, rfl⟩, rfl, -⟩ := hm
  exact ⟨rfl, rfl, _, rfl, rfl⟩

namespace Block

variable {b : Benchmark} {c : Configuration} {left : Nat} {J : List Event}
  {o : Except Failure (CompletedRun × Measurement)}

/-- A block starts with a run. -/
theorem exists_cons (h : Block b c left J o) : ∃ o' rest, J = .ran b c o' :: rest := by
  cases h with
  | last h => cases h <;> exact ⟨_, _, rfl⟩
  | aborted h => cases h <;> exact ⟨_, _, rfl⟩
  | again h h' => cases h <;> exact ⟨_, _, rfl⟩

/-- A block that comes to a measurement ends with the run that counted. -/
theorem exists_counted (h : Block b c left J o) {run : CompletedRun} {m : Measurement}
    (ho : o = .ok (run, m)) : ∃ K, J = K ++ [.ran b c (.ok run), .loaded (.ok m)] := by
  induction h with
  | last h =>
    subst ho
    cases h
    exact ⟨[], rfl⟩
  | aborted h => cases ho
  | again h h' ih =>
    obtain ⟨K, rfl⟩ := ih ho
    exact ⟨_, (List.append_assoc _ (_ :: K) _).symm⟩

theorem head?_ne_loaded (h : Block b c left J o) (r : Except Failure Measurement) :
    J.head? ≠ some (.loaded r) := by
  obtain ⟨o', rest, rfl⟩ := h.exists_cons
  simp

/-- Only the last run of a block can count, and the block comes to its measurement. -/
theorem eq_of_countedAfter (h : Block b c left J o) {A : List Event} {b' : Benchmark}
    {c' : Configuration} {m : Measurement} (hm : CountedAfter A J b' c' m) : b' = b ∧ c' = c ∧
      ∃ run, o = .ok (run, m) ∧ J = A ++ [.ran b c (.ok run), .loaded (.ok m)] := by
  induction h generalizing A with
  | last h => exact h.eq_of_countedAfter hm
  | aborted h =>
    rcases hm.append_cases (by simp) with hj | ⟨A', -, hj⟩
    · obtain ⟨-, -, run, hf, -⟩ := h.eq_of_countedAfter hj
      cases hf
    · exact (not_countedAfter_singleton _ _ _ _ _ hj).elim
  | @again _ J K _ _ _ h h' ih =>
    rcases hm.append_cases (by simp) with hj | ⟨A', rfl, hj⟩
    · obtain ⟨-, -, run, hf, -⟩ := h.eq_of_countedAfter hj
      cases hf
    · rcases CountedAfter.append_cases (J := [.polled false]) hj h'.head?_ne_loaded with
        hk | ⟨A', rfl, hk⟩
      · exact (not_countedAfter_singleton _ _ _ _ _ hk).elim
      · obtain ⟨hb, hc, run, ho, rfl⟩ := ih hk
        exact ⟨hb, hc, run, ho, by simp⟩

/-- A block holds runs under its configuration, what was read after them, and what was asked. -/
theorem mem_cases (h : Block b c left J o) {ev : Event} (hev : ev ∈ J) :
    (∃ r, ev = .ran b c r) ∨ (∃ r, ev = .loaded r) ∨ ∃ answer, ev = .polled answer := by
  induction h with
  | last h => cases h <;> simp at hev <;> grind
  | aborted h => cases h <;> simp at hev <;> grind
  | again h h' ih => cases h <;> simp at hev <;> grind

/-- Nothing is written out for replay in a block. -/
theorem tree_free (h : Block b c left J o) : J.filterMap Event.tree? = [] :=
  List.filterMap_eq_nil_iff.2 fun ev hev => by
    rcases h.mem_cases hev with ⟨_, rfl⟩ | ⟨_, rfl⟩ | ⟨_, rfl⟩ <;> rfl

/-- All through a block it is the tree before it that is replayed. -/
theorem replayed_eq {K L : List Event} (h : Block b c left (K ++ L) o) (A : List Event) (t : Tree) :
    replayed (A ++ .prepared t :: K) = some t := by
  have hfree := List.append_eq_nil_iff.1 (List.filterMap_append .. ▸ h.tree_free)
  exact replayed_append_of_some A (replayed_append_of_silent [.prepared t] hfree.1)

theorem row_free (h : Block b c left J o) : J.filterMap Event.row? = [] :=
  List.filterMap_eq_nil_iff.2 fun ev hev => by
    rcases h.mem_cases hev with ⟨_, rfl⟩ | ⟨_, rfl⟩ | ⟨_, rfl⟩ <;> rfl

end Block

namespace Explorer

variable (e : Explorer W)

theorem attempt_spec {b : Benchmark} {c : Configuration} {s t : Session W}
    {o : Except Failure (CompletedRun × Measurement)} (h : (e.attempt b c).on s = (o, t)) :
    ∃ J, Attempt b c J o ∧ s.Adds J t := by
  obtain ⟨launched, world, workspace, output, hl⟩ := e.on_launch b c s
  cases launched with
  | error f =>
    rw [attempt, Exploring.on_bind_error hl] at h
    cases h
    exact ⟨_, .failed f, rfl, rfl, rfl⟩
  | ok run =>
    rw [attempt, Exploring.on_bind_ok hl, Exploring.on_bind_ok (Exploring.on_caught _ _)] at h
    simp only [on_load] at h
    generalize (e.host.load _ _ _ _).1 = r at h
    cases r with
    | ok m =>
      cases h
      exact ⟨_, .counted run m, by simp [Session.note], rfl, rfl⟩
    | error f =>
      dsimp only at h
      split at h <;> cases h <;> exact ⟨_, .unread run f _, by simp [Session.note], rfl, rfl⟩

/-- By induction on the retries that are left. -/
theorem attempts_spec (b : Benchmark) (c : Configuration) (number left : Nat) (s : Session W) :
    ∃ J, Block b c left J ((e.attempts b c number left).on s).1 ∧
      s.Adds J ((e.attempts b c number left).on s).2 := by
  induction left using Nat.strongRecOn generalizing number s with
  | ind left ih =>
    obtain ⟨next, t, hretrial, hnext⟩ := e.attempts_retrial b c number left s
    rw [hnext]
    cases hretrial with
    | counted hattempt | broken hattempt =>
      obtain ⟨J, hJ, hadds⟩ := e.attempt_spec hattempt
      exact ⟨J, .last hJ, hadds⟩
    | exhausted hattempt hsay =>
      obtain ⟨J, hJ, hadds⟩ := e.attempt_spec hattempt
      exact ⟨J, .last hJ, by simpa using hadds.trans (.of_say hsay)⟩
    | stopped hattempt hsay hpoll =>
      obtain ⟨J, hJ, hadds⟩ := e.attempt_spec hattempt
      exact ⟨_, .aborted hJ, by simpa using (hadds.trans (.of_say hsay)).trans (.of_poll hpoll)⟩
    | again hattempt hsay hpoll hnote =>
      obtain ⟨J, hJ, hadds⟩ := e.attempt_spec hattempt
      obtain ⟨K, hK, hrest⟩ := ih _ (Nat.lt_succ_self _) (number + 1) _
      refine ⟨_, .again hJ hK, ?_⟩
      simpa using (((hadds.trans (.of_say hsay)).trans (.of_poll hpoll)).trans (.of_say hnote)).trans hrest

/-- A run is refused if its number of retries is negative; else it is a block of attempts. -/
theorem run_spec (b : Benchmark) (c : Configuration) (s : Session W) :
    (e.settings.maxRetries < 0 ∧ ∃ f, (e.run b c).on s = (.error f, s)) ∨
      0 ≤ e.settings.maxRetries ∧ ∃ J, Block b c e.settings.maxRetries.toNat J ((e.run b c).on s).1 ∧
        s.Adds J ((e.run b c).on s).2 := by
  unfold run
  split
  · rename_i h
    exact .inl ⟨h, _, rfl⟩
  · rename_i h
    exact .inr ⟨Int.not_lt.1 h, e.attempts_spec b c 1 _ s⟩

/-- If the first attempt counts, then it is the run. -/
theorem run_of_attempt {b : Benchmark} {c : Configuration} {s t : Session W}
    {r : CompletedRun × Measurement} (hr : 0 ≤ e.settings.maxRetries)
    (h : (e.attempt b c).on s = (.ok r, t)) : (e.run b c).on s = (.ok r, t) := by
  rw [run, if_neg (Int.not_lt.2 hr)]
  unfold attempts
  rw [Exploring.on_bind_ok (Exploring.on_caught _ s), h]
  rfl

/-- What measuring a tree comes to, and the session after it. -/
inductive Measuring (b : Benchmark) (t : Tree) (s : Session W) :
    Except Failure Measurement → Session W → Prop where
  /-- The tree could not be written out. -/
  | unprepared (f : Failure) : Measuring b t s (.error f) s
  /-- A run under this configuration counted before. -/
  | remembered {c m s'} (hc : Replay.configurationOf t e.settings.resultsDir = .ok c)
    (hm : s.measurements.get? (b.name, c.name) = some m) (hs : s.Adds [.prepared t] s') :
    Measuring b t s (.ok m) s'
  | refused {c f s'} (hc : Replay.configurationOf t e.settings.resultsDir = .ok c)
    (hr : e.settings.maxRetries < 0) (hs : s.Adds [.prepared t] s') : Measuring b t s (.error f) s'
  | failed {c J f s'} (hc : Replay.configurationOf t e.settings.resultsDir = .ok c)
    (hn : s.measurements.get? (b.name, c.name) = none) (hr : 0 ≤ e.settings.maxRetries)
    (hb : Block b c e.settings.maxRetries.toNat J (.error f)) (hs : s.Adds (.prepared t :: J) s') :
    Measuring b t s (.error f) s'
  | counted {c J run m s'} (hc : Replay.configurationOf t e.settings.resultsDir = .ok c)
    (hn : s.measurements.get? (b.name, c.name) = none) (hr : 0 ≤ e.settings.maxRetries)
    (hb : Block b c e.settings.maxRetries.toNat J (.ok (run, m)))
    (hs : (s.remember b c m).Adds (.prepared t :: J) s') : Measuring b t s (.ok m) s'

theorem measureTree_spec (b : Benchmark) (t : Tree) (s : Session W) :
    e.Measuring b t s ((e.measureTree b t).on s).1 ((e.measureTree b t).on s).2 := by
  rcases e.on_prepare t s with ⟨f, hp⟩ | ⟨c, workspace, hc, hp⟩
  · rw [measureTree, Exploring.on_bind_error hp]
    exact .unprepared f
  · have hc := Replay.configurationOf_of_prepare hc
    obtain ⟨u, hu, hs⟩ : ∃ u, (e.prepare t).on s = (.ok c, u) ∧ s.Adds [.prepared t] u :=
      ⟨_, hp, rfl, rfl, rfl⟩
    rw [measureTree, Exploring.on_bind_ok hu, measure, Exploring.on_bind_ok (Exploring.on_get u), hs.2]
    rcases hm : s.measurements.get? (b.name, c.name) with _ | m
    · simp only
      rcases e.run_spec b c u with ⟨hr, f, hf⟩ | ⟨hr, J, hb, hs'⟩
      · rw [Exploring.on_bind_error hf]
        exact .refused hc hr hs
      · rcases ho : (e.run b c).on u with ⟨o, v⟩
        simp only [ho] at hb hs'
        rcases o with f | ⟨run, m⟩
        · rw [Exploring.on_bind_error ho]
          exact .failed hc hm hr hb (hs.trans hs')
        · rw [Exploring.on_bind_ok ho, Exploring.on_bind_ok (on_remember ..)]
          exact .counted hc hm hr hb ((hs.trans hs').remember b c m)
    · exact .remembered hc hm hs

/-- What running the full model comes to, and the session after it. -/
inductive Capturing (b : Benchmark) (s : Session W) :
    Except Failure (Forest × Measurement) → Session W → Prop where
  | refused (f : Failure) (hr : e.settings.maxRetries < 0) : Capturing b s (.error f) s
  | failed {J f s'} (hb : Block b e.fullModel e.settings.maxRetries.toNat J (.error f))
    (hs : s.Adds J s') : Capturing b s (.error f) s'
  /-- The run counted, but there is no forest in its log. -/
  | unreported {J run m f s'} (hb : Block b e.fullModel e.settings.maxRetries.toNat J (.ok (run, m)))
    (hs : (s.remember b e.fullModel m).Adds J s') : Capturing b s (.error f) s'
  | captured {J run m f ws s'} (hb : Block b e.fullModel e.settings.maxRetries.toNat J (.ok (run, m)))
    (hf : Forest.load ws run.logFile = .ok f)
    (hs : (s.remember b e.fullModel m).Adds (J ++ [.reported f]) s') : Capturing b s (.ok (f, m)) s'

theorem capture_spec (b : Benchmark) (s : Session W) :
    e.Capturing b s ((e.capture b e.fullModel).on s).1 ((e.capture b e.fullModel).on s).2 := by
  rcases e.run_spec b e.fullModel s with ⟨hr, f, hf⟩ | ⟨hr, J, hb, hs⟩
  · rw [capture, Exploring.on_bind_error hf]
    exact .refused f hr
  · rcases ho : (e.run b e.fullModel).on s with ⟨o, u⟩
    simp only [ho] at hb hs
    rcases o with f | ⟨run, m⟩
    · rw [capture, Exploring.on_bind_error ho]
      exact .failed hb hs
    · rw [capture, Exploring.on_bind_ok ho, Exploring.on_bind_ok (on_remember ..)]
      have hr := hs.remember b e.fullModel m
      simp only [loadForest, Exploring.on_bind, Exploring.on_get, Exploring.on_demand]
      rcases hl : Forest.load u.workspace run.logFile with failure | f
      · exact .unreported hb hr
      · refine .captured hb hl ⟨?_, hr.2, hr.3⟩
        simp only [Exploring.on_modify, Exploring.on_pure, Session.note, Session.remember, hs.1,
          List.append_assoc]

theorem fullForest_spec (b : Benchmark) (s : Session W) :
    e.Capturing b s ((e.fullForest b).on s).1 ((e.fullForest b).on s).2 := by
  have h := e.capture_spec b s
  rcases ho : (e.capture b e.fullModel).on s with ⟨o, t⟩
  rw [ho] at h
  rcases o with failure | ⟨f, m⟩
  · rw [fullForest, Exploring.on_bind_error ho]
    exact h
  · rw [fullForest, Exploring.on_bind_ok ho]
    dsimp only
    split
    · rw [Exploring.on_bind_ok (Exploring.on_say _ t)]
      cases h with
      | captured hb hf hs => exact .captured hb hf (by simpa using hs.trans (.of_say (Exploring.on_say _ t)))
    · exact h

/-- If the full model's first attempt counts and its log holds a forest, then that is the forest. -/
theorem on_fullForest_of_attempt {b : Benchmark} {s t : Session W} {run : CompletedRun} {m : Measurement}
    {f : Forest} (hr : 0 ≤ e.settings.maxRetries) (hquiet : e.verbose = false)
    (h : (e.attempt b e.fullModel).on s = (.ok (run, m), t)) (hf : Forest.load t.workspace run.logFile = .ok f) :
    (e.fullForest b).on s = (.ok (f, m), (t.remember b e.fullModel m).note (.reported f)) := by
  have hload : (loadForest run).on (t.remember b e.fullModel m) =
      (.ok f, (t.remember b e.fullModel m).note (.reported f)) := by
    rw [loadForest, Exploring.on_bind_ok (Exploring.on_get _)]
    show (demand (Forest.load t.workspace run.logFile) >>= _).on _ = _
    rw [hf]
    rfl
  have hcapture : (e.capture b e.fullModel).on s =
      (.ok (f, m), (t.remember b e.fullModel m).note (.reported f)) := by
    rw [capture, Exploring.on_bind_ok (e.run_of_attempt hr h), Exploring.on_bind_ok (on_remember ..)]
    exact Exploring.on_bind_ok hload _
  rw [fullForest, Exploring.on_bind_ok hcapture, hquiet]
  rfl

end Explorer

end InlineImpact.Exploration
