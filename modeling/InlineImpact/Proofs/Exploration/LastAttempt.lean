import InlineImpact.Proofs.Exploration.Abort
import InlineImpact.Proofs.Exploration.Scripted

/-!
A run that fails while an abort is requested. It is asked for an abort before an attempt is made again,
and not after the last one: so the root ends aborted if another attempt would be allowed, and is given
up, with rows without data, if that attempt was the last. `exploreRoot_resolves` is the main result.
-/
namespace InlineImpact.Exploration

open Journal

variable {W α β : Type}

/-- One more run, unless a tree is written out. -/
def Event.tally (n : Nat) : Event → Nat
  | prepared _ => 0
  | ran .. => n + 1
  | loaded _ | reported _ | polled _ | emitted _ => n

/-- The runs that were started since a tree was written out last. -/
def Journal.tries (J : List Event) : Nat := J.foldl Event.tally 0

theorem tries_append_of_mem (J : List Event) {K : List Event} {t : Tree} (h : .prepared t ∈ K) :
    tries (J ++ K) = tries K := by
  obtain ⟨A, B, rfl⟩ := List.append_of_mem h
  simp only [tries, List.foldl_append, List.foldl_cons, Event.tally]

/-- A run among these events failed, and after it every answer was that an abort is requested. -/
def Journal.FailsAt (J A : List Event) (b : Benchmark) (c : Configuration) (fault : RunFault)
    (code : Option Int) (B : List Event) : Prop :=
  J = A ++ .ran b c (.error (.run fault code)) :: B ∧ Pending B

namespace Journal.FailsAt

variable {J K A B : List Event} {b : Benchmark} {c : Configuration} {fault : RunFault} {code : Option Int}

/-- In two stretches the run stands in the second, or in the first with the second after it. -/
theorem append_cases (h : FailsAt (J ++ K) A b c fault code B) :
    (∃ A', A = J ++ A' ∧ FailsAt K A' b c fault code B) ∨
      ∃ B', B = B' ++ K ∧ FailsAt J A b c fault code B' := by
  obtain ⟨hsplit, hB⟩ := h
  rcases split_append hsplit with ⟨A', hA, hK⟩ | ⟨B', hJ, rfl⟩
  · exact .inl ⟨A', hA, hK, hB⟩
  · exact .inr ⟨B', rfl, hJ, (pending_append.1 hB).1⟩

theorem mem (h : FailsAt J A b c fault code B) : .ran b c (.error (.run fault code)) ∈ J := by
  simp [h.1]

end Journal.FailsAt

/-- The run of an attempt is all that can fail in it. -/
theorem Attempt.eq_of_failsAt {b b' : Benchmark} {c c' : Configuration} {A B J : List Event}
    {o : Except Failure (CompletedRun × Measurement)} {fault : RunFault} {code : Option Int}
    (h : Attempt b c J o) (hf : FailsAt J A b' c' fault code B) :
    A = [] ∧ B = [] ∧ b' = b ∧ c' = c ∧ o = .error (.run fault code) := by
  obtain ⟨hsplit, -⟩ := hf
  cases h <;> rcases A with _ | ⟨ev, _ | ⟨ev', A⟩⟩ <;> simp at hsplit
  obtain ⟨⟨rfl, rfl, rfl⟩, rfl⟩ := hsplit
  exact ⟨rfl, rfl, rfl, rfl, rfl⟩

/-- An attempt starts one run and writes nothing out. -/
theorem Attempt.tally {b : Benchmark} {c : Configuration} {J : List Event}
    {o : Except Failure (CompletedRun × Measurement)} (h : Attempt b c J o) (n : Nat) :
    J.foldl Event.tally n = n + 1 := by
  cases h <;> rfl

section Measuring

variable (e : Explorer W)

/-- After a run that fails while an abort is requested nothing is run any more. If another attempt is
allowed the operation ends for the abort, and else for the failure of that run. -/
def Explorer.Halts (J : List Event) (o : Except Failure α) : Prop :=
  ∀ A b c fault code B, FailsAt J A b c fault code B → (∃ t, .prepared t ∈ A) ∧
    ((tries A < e.settings.maxRetries ∧ B = [.polled true] ∧
        o = .error (.aborted (.afterFailure b.name c.name))) ∨
      tries A = e.settings.maxRetries ∧ B = [] ∧ o = .error (.run fault code))

/-- From every session the operation halts, and no context becomes explored. -/
def Explorer.Measures (x : Exploring W α) : Prop :=
  ∀ s, ∃ J, (x.on s).2.journal = s.journal ++ J ∧ (x.on s).2.explored = s.explored ∧ e.Halts J (x.on s).1

variable {e} {J K : List Event} {x : Exploring W α}

theorem halts_of_silent {o : Except Failure α} (h : ∀ b c o, .ran b c o ∉ J) : e.Halts J o :=
  fun _ b c _ _ _ hf => (h b c _ hf.mem).elim

/-- A failure is the same for every kind of result. -/
theorem Explorer.Halts.error {failure : Failure} (h : e.Halts J (.error failure : Except Failure α)) :
    e.Halts J (.error failure : Except Failure β) := by
  intro A b c fault code B hf
  simpa using h A b c fault code B hf

/-- An operation that came to a result has no such run. -/
theorem Explorer.Halts.not_failsAt {a : α} (h : e.Halts J (.ok a)) {A B : List Event} {b : Benchmark}
    {c : Configuration} {fault : RunFault} {code : Option Int} : ¬FailsAt J A b c fault code B := by
  intro hf
  rcases (h A b c fault code B hf).2 with ⟨-, -, ho⟩ | ⟨-, -, ho⟩ <;> cases ho

theorem Explorer.Halts.append {a : α} {o : Except Failure β} (hJ : e.Halts J (.ok a)) (hK : e.Halts K o) :
    e.Halts (J ++ K) o := by
  intro A b c fault code B hf
  rcases hf.append_cases with ⟨A', rfl, hlate⟩ | ⟨B', -, hearly⟩
  · obtain ⟨⟨t, ht⟩, h⟩ := hK A' b c fault code B hlate
    rw [tries_append_of_mem J ht]
    exact ⟨⟨t, List.mem_append_right J ht⟩, h⟩
  · exact (hJ.not_failsAt hearly).elim

namespace Explorer.Measures

theorem of_silent (h : ∀ s, ∃ J, (x.on s).2.journal = s.journal ++ J ∧ (x.on s).2.explored = s.explored ∧
    ∀ b c o, .ran b c o ∉ J) : e.Measures x := by
  intro s
  obtain ⟨J, hj, hx, hrun⟩ := h s
  exact ⟨J, hj, hx, halts_of_silent hrun⟩

theorem of_still (h : ∀ s, (x.on s).2 = s) : e.Measures x :=
  of_silent fun s => ⟨[], by simp [h s], by rw [h s], by simp⟩

theorem bind {k : α → Exploring W β} (hx : e.Measures x) (hk : ∀ a, e.Measures (k a)) :
    e.Measures (x >>= k) := by
  intro s
  obtain ⟨J, hj, hexplored, hJ⟩ := hx s
  rcases ho : x.on s with ⟨failure | a, t⟩
  · rw [Exploring.on_bind_error ho]
    rw [ho] at hj hexplored hJ
    exact ⟨J, hj, hexplored, hJ.error⟩
  · rw [Exploring.on_bind_ok ho]
    rw [ho] at hj hexplored hJ
    obtain ⟨K, hk', hexplored', hK⟩ := hk a t
    exact ⟨J ++ K, by rw [hk', hj, List.append_assoc], hexplored'.trans hexplored, hJ.append hK⟩

end Explorer.Measures

namespace Explorer

variable (e) (b : Benchmark)

theorem poll_measures : e.Measures e.poll :=
  .of_silent fun _ => ⟨[.polled _], rfl, rfl, by simp⟩

/-- The attempts of a run after `n` others. By induction on the retries that are left. -/
theorem attempts_halts (c : Configuration) (number left n : Nat) (s : Session W) :
    ∃ J, s.Adds J ((e.attempts b c number left).on s).2 ∧
      ∀ A b' c' fault code B, FailsAt J A b' c' fault code B →
        (A.foldl Event.tally n < n + left ∧ B = [.polled true] ∧
            ((e.attempts b c number left).on s).1 = .error (.aborted (.afterFailure b'.name c'.name))) ∨
          A.foldl Event.tally n = n + left ∧ B = [] ∧
            ((e.attempts b c number left).on s).1 = .error (.run fault code) := by
  induction left using Nat.strongRecOn generalizing number n s with
  | ind left ih =>
    obtain ⟨next, t, hretrial, hnext⟩ := e.attempts_retrial b c number left s
    rw [hnext]
    cases hretrial with
    | counted hattempt =>
      obtain ⟨J, hJ, hadds⟩ := e.attempt_spec hattempt
      exact ⟨J, hadds, fun A b' c' fault code B hf => by cases (hJ.eq_of_failsAt hf).2.2.2.2⟩
    | broken hattempt hrun =>
      obtain ⟨J, hJ, hadds⟩ := e.attempt_spec hattempt
      refine ⟨J, hadds, fun A b' c' fault code B hf => ?_⟩
      exact (hrun _ _ (Except.error.inj (hJ.eq_of_failsAt hf).2.2.2.2)).elim
    | exhausted hattempt hsay =>
      obtain ⟨J, hJ, hadds⟩ := e.attempt_spec hattempt
      refine ⟨J, by simpa using hadds.trans (.of_say hsay), fun A b' c' fault' code' B hf => .inr ?_⟩
      obtain ⟨rfl, rfl, -, -, ho⟩ := hJ.eq_of_failsAt hf
      exact ⟨rfl, rfl, ho⟩
    | stopped hattempt hsay hpoll =>
      obtain ⟨J, hJ, hadds⟩ := e.attempt_spec hattempt
      refine ⟨_, by simpa using (hadds.trans (.of_say hsay)).trans (.of_poll hpoll), ?_⟩
      refine fun A b' c' fault' code' B hf => .inl ?_
      rcases hf.append_cases with ⟨A', -, hlate⟩ | ⟨B', rfl, hearly⟩
      · simpa using hlate.mem
      · obtain ⟨rfl, rfl, rfl, rfl, -⟩ := hJ.eq_of_failsAt hearly
        exact ⟨Nat.lt_add_of_pos_right (Nat.succ_pos _), rfl, rfl⟩
    | @again left _ _ _ _ _ _ _ _ hattempt hsay hpoll hnote =>
      obtain ⟨J, hJ, hadds⟩ := e.attempt_spec hattempt
      obtain ⟨K, hrest, hK⟩ := ih left (Nat.lt_succ_self left) (number + 1) (n + 1) t
      have hbefore := ((hadds.trans (.of_say hsay)).trans (.of_poll hpoll)).trans (.of_say hnote)
      refine ⟨_, by simpa using hbefore.trans hrest, fun A b' c' fault' code' B hf => ?_⟩
      rcases hf.append_cases with ⟨A', rfl, hlate⟩ | ⟨B', rfl, hearly⟩
      · rcases Journal.FailsAt.append_cases (J := [Event.polled false]) hlate with ⟨A'', rfl, hlater⟩ | ⟨_, -, hpolled⟩
        · have htally : (J ++ ([Event.polled false] ++ A'')).foldl Event.tally n = A''.foldl Event.tally (n + 1) := by
            rw [List.foldl_append, hJ.tally]
            rfl
          rw [htally, show n + (left + 1) = n + 1 + left by omega]
          exact hK A'' b' c' fault' code' B hlater
        · simpa using hpolled.mem
      · exact (not_pending_of_mem (by simp) hf.2).elim

theorem measureTree_measures (t : Tree) : e.Measures (e.measureTree b t) := by
  intro s
  have hlone {u : Session W} {o : Except Failure Measurement} (h : s.Adds [.prepared t] u) :
      ∃ J, u.journal = s.journal ++ J ∧ u.explored = s.explored ∧ e.Halts J o :=
    ⟨_, h.journal, h.explored, halts_of_silent (by simp)⟩
  unfold measureTree
  rcases e.on_prepare t s with ⟨failure, hp⟩ | ⟨c, workspace, -, hp⟩
  · rw [Exploring.on_bind_error hp]
    exact ⟨[], by simp, rfl, halts_of_silent (by simp)⟩
  · rw [Exploring.on_bind_ok hp]
    generalize hu : ({ s with workspace } : Session W).note (.prepared t) = u
    have hwritten : s.Adds [.prepared t] u := hu ▸ ⟨rfl, rfl, rfl⟩
    unfold measure
    rw [Exploring.on_bind_ok (Exploring.on_get u)]
    cases hm : u.measurements.get? (b.name, c.name) with
    | some m => exact hlone hwritten
    | none =>
      dsimp only
      unfold run
      split
      · exact hlone hwritten
      · rename_i hretries
        obtain ⟨J, hj, hJ⟩ := e.attempts_halts b c 1 e.settings.maxRetries.toNat 0 u
        have hadds := hwritten.trans hj
        have hhalts : e.Halts (.prepared t :: J) ((e.attempts b c 1 e.settings.maxRetries.toNat).on u).1 := by
          intro A b' c' fault code B hf
          rcases Journal.FailsAt.append_cases (J := [Event.prepared t]) hf with ⟨A', rfl, hlate⟩ | ⟨_, -, hearly⟩
          · refine ⟨⟨t, by simp⟩, ?_⟩
            have htries : tries ([Event.prepared t] ++ A') = A'.foldl Event.tally 0 := rfl
            rw [htries]
            refine (hJ A' b' c' fault code B hlate).imp (fun ⟨hn, h⟩ => ⟨?_, h⟩) fun ⟨hn, h⟩ => ⟨?_, h⟩
            · omega
            · omega
          · simpa using hearly.mem
        rcases ho : (e.attempts b c 1 e.settings.maxRetries.toNat).on u with ⟨failure | ⟨run, m⟩, v⟩ <;>
          rw [ho] at hadds hhalts
        · rw [Exploring.on_bind_error ho]
          exact ⟨_, hadds.journal, hadds.explored, hhalts.error⟩
        · rw [Exploring.on_bind_ok ho]
          refine ⟨_, hadds.journal, hadds.explored, fun A b' c' fault code B hf => ?_⟩
          exact (hhalts.not_failsAt hf).elim

theorem measureEnds_measures (full : Tree) : e.Measures (e.measureEnds b full) := by
  refine (e.measureTree_measures b _).bind fun empty => e.poll_measures.bind fun answer => ?_
  have hrest : e.Measures (e.measureTree b full >>= fun m => pure (empty, m)) :=
    (e.measureTree_measures b full).bind fun _ => .of_still fun _ => rfl
  cases answer with
  | true => exact Measures.bind (.of_still fun _ => rfl) fun _ => hrest
  | false => exact hrest

theorem measurePair_measures (parent : Tree) (known : Option Measurement) (child : Tree) :
    e.Measures (e.measurePair b parent known child) := by
  have hrest (m : Measurement) : e.Measures (e.measureTree b child >>= fun m' => pure (m, m')) :=
    (e.measureTree_measures b child).bind fun _ => .of_still fun _ => rfl
  cases known with
  | some m => exact Measures.bind (.of_still fun _ => rfl) hrest
  | none => exact (e.measureTree_measures b parent).bind hrest

end Explorer

end Measuring

section Resolving

/-- Rows without data for those of the decisions whose contexts are not explored. -/
def lostRows (b : Benchmark) (root : MethodId) (explored : List Decision.Context) (ds : List Decision) :
    List Event :=
  (ds.filter fun d => !explored.contains d.context).map fun d => .emitted ⟨b.name, root, d, none⟩

/-- The root is given up after the fault: there are rows without data for all decisions from some one on
that are not explored, at least for one, and the report counts them, unless a row could not be appended. -/
def GivenUp (b : Benchmark) (root : MethodId) (ds : List Decision) (fault : RunFault) (t : Session W)
    (B : List Event) (o : Except Failure RootReport) : Prop :=
  ∃ left, left <:+ ds ∧ (∃ d ∈ left, d.context ∉ t.explored) ∧
    ((B = lostRows b root t.explored left ∧ ∃ r, o = .ok r ∧ r.state = .exhausted ∧
        r.reason = fault.message ∧ r.missing = B.length) ∨
      ∃ failure, o = .error failure ∧ B <+: lostRows b root t.explored left)

/-- What becomes of a root if a run of it fails while an abort is requested: it ends aborted if another
attempt is allowed, and else it is given up. -/
def Explorer.Resolves (e : Explorer W) (b : Benchmark) (root : MethodId) (ds : List Decision)
    (J : List Event) (t : Session W) (o : Except Failure RootReport) : Prop :=
  ∀ A b' c fault code B, FailsAt J A b' c fault code B → (∃ t, .prepared t ∈ A) ∧
    ((tries A < e.settings.maxRetries ∧ B = [.polled true] ∧ ∃ r, o = .ok r ∧ r.state = .aborted ∧
        r.reason = (AbortPoint.afterFailure b'.name c.name).message) ∨
      tries A = e.settings.maxRetries ∧ GivenUp b root ds fault t B o)

/-- From the session, exploring the root comes to such an end. -/
def Explorer.Settles (e : Explorer W) (x : Exploring W RootReport) (b : Benchmark) (root : MethodId)
    (ds : List Decision) (s : Session W) : Prop :=
  ∃ J, (x.on s).2.journal = s.journal ++ J ∧ e.Resolves b root ds J (x.on s).2 (x.on s).1

/-- No run fails in these events while an abort is requested. -/
def Journal.Clear (J : List Event) : Prop := ∀ A b c fault code B, ¬FailsAt J A b c fault code B

variable {e : Explorer W} {b : Benchmark} {root : MethodId} {ds ds' : List Decision} {J K : List Event}
  {s t : Session W}

theorem clear_of_silent (h : ∀ b c o, .ran b c o ∉ J) : Clear J := fun _ b c _ _ _ hf => h b c _ hf.mem

/-- A measurement that came to a result. -/
theorem Explorer.Measures.clear {x : Exploring W α} {a : α} (hx : e.Measures x) (h : x.on s = (.ok a, t)) :
    ∃ J, t.journal = s.journal ++ J ∧ t.explored = s.explored ∧ Clear J := by
  obtain ⟨J, hj, hexplored, hJ⟩ := hx s
  rw [h] at hj hexplored hJ
  exact ⟨J, hj, hexplored, fun _ _ _ _ _ _ => hJ.not_failsAt⟩

theorem clear_of_emitMeasured {d : Decision} {est : Estimate} {o : Except Failure Unit}
    (h : (Explorer.emitMeasured b root d est).on s = (o, t)) : ∃ J, t.journal = s.journal ++ J ∧ Clear J := by
  rcases on_emit ⟨b.name, root, d, some est⟩ s with ⟨dataset, ws, hm⟩ | ⟨failure, dataset, ws, hm⟩
  · rw [Explorer.emitMeasured, Exploring.on_bind_ok hm, Exploring.on_markExplored] at h
    obtain rfl := congrArg Prod.snd h
    exact ⟨[.emitted ⟨b.name, root, d, some est⟩], by dsimp only; split <;> rfl, clear_of_silent (by simp)⟩
  · rw [Explorer.emitMeasured, Exploring.on_bind_error hm] at h
    obtain rfl := congrArg Prod.snd h
    exact ⟨[], by simp, clear_of_silent (by simp)⟩

namespace Explorer.Resolves

variable {o : Except Failure RootReport}

theorem of_clear (h : Clear J) : e.Resolves b root ds J t o :=
  fun A b' c fault code B hf => (h A b' c fault code B hf).elim

theorem after (hJ : Clear J) (h : e.Resolves b root ds K t o) : e.Resolves b root ds (J ++ K) t o := by
  intro A b' c fault code B hf
  rcases hf.append_cases with ⟨A', rfl, hlate⟩ | ⟨B', -, hearly⟩
  · obtain ⟨⟨tree, ht⟩, h⟩ := h A' b' c fault code B hlate
    rw [tries_append_of_mem J ht]
    exact ⟨⟨tree, List.mem_append_right J ht⟩, h⟩
  · exact (hJ _ _ _ _ _ _ hearly).elim

theorem mono (h : e.Resolves b root ds J t o) (hds : ds <:+ ds') : e.Resolves b root ds' J t o := by
  intro A b' c fault code B hf
  obtain ⟨ht, h⟩ := h A b' c fault code B hf
  exact ⟨ht, h.imp_right fun ⟨hn, left, hleft, h⟩ => ⟨hn, left, hleft.trans hds, h⟩⟩

end Explorer.Resolves

namespace Explorer.Settles

variable {x y : Exploring W RootReport}

theorem pure (r : RootReport) : e.Settles (pure r) b root ds s :=
  ⟨[], by simp, .of_clear (clear_of_silent (by simp))⟩

theorem throw (failure : Failure) : e.Settles (throw failure) b root ds s :=
  ⟨[], by simp, .of_clear (clear_of_silent (by simp))⟩

/-- What is left to do may start later, if no run fails before. -/
theorem later {u : Session W} (h : ∃ K, (y.on u).2.journal = t.journal ++ K ∧
      e.Resolves b root ds K (y.on u).2 (y.on u).1) (hj : t.journal = s.journal ++ J) (hJ : Clear J) :
    ∃ K, (y.on u).2.journal = s.journal ++ K ∧ e.Resolves b root ds K (y.on u).2 (y.on u).1 := by
  obtain ⟨K, hk, hK⟩ := h
  exact ⟨J ++ K, by rw [hk, hj, List.append_assoc], hK.after hJ⟩

theorem of_on {u : Session W} (hx : x.on s = y.on u)
    (h : ∃ K, (y.on u).2.journal = s.journal ++ K ∧ e.Resolves b root ds K (y.on u).2 (y.on u).1) :
    e.Settles x b root ds s := by
  rwa [Settles, hx]

theorem mono {x : Exploring W RootReport} (h : e.Settles x b root ds s) (hds : ds <:+ ds') :
    e.Settles x b root ds' s := by
  obtain ⟨J, hj, hJ⟩ := h
  exact ⟨J, hj, hJ.mono hds⟩

end Explorer.Settles

theorem lostRows_cons_of_mem {explored : List Decision.Context} {d : Decision} (h : d.context ∈ explored)
    (ds : List Decision) : lostRows b root explored (d :: ds) = lostRows b root explored ds := by
  simp [lostRows, h]

theorem lostRows_cons_of_not_mem {explored : List Decision.Context} {d : Decision}
    (h : d.context ∉ explored) (ds : List Decision) : lostRows b root explored (d :: ds) =
      .emitted ⟨b.name, root, d, none⟩ :: lostRows b root explored ds := by
  simp [lostRows, h]

/-- Exactly the decisions that are not explored get a row without data. -/
theorem emitMissing_yields_lost (b : Benchmark) (root : MethodId) (ds : List Decision) (s : Session W) :
    (Explorer.emitMissing b root ds).Yields s
      (fun n t => t.explored = s.explored ∧ t.journal = s.journal ++ lostRows b root s.explored ds ∧
        n = (lostRows b root s.explored ds).length)
      (fun _ t => t.explored = s.explored ∧ ∃ E, E <+: lostRows b root s.explored ds ∧
        t.journal = s.journal ++ E) := by
  induction ds generalizing s with
  | nil => exact .pure ⟨rfl, by simp [lostRows], rfl⟩
  | cons d rest ih =>
    unfold Explorer.emitMissing
    refine .after (Exploring.on_isExplored d.context s) ?_
    split
    · rename_i hd
      rw [lostRows_cons_of_mem (by simpa using hd)]
      exact ih s
    · rename_i hd
      rw [lostRows_cons_of_not_mem (by simpa using hd)]
      rcases on_emit ⟨b.name, root, d, none⟩ s with ⟨dataset, ws, hm⟩ | ⟨failure, dataset, ws, hm⟩
      · refine .after hm (.bind ((ih _).mono_error fun _ t ht => ?_) fun n t ht => .pure ?_)
        · obtain ⟨hexplored, E, hE, hj⟩ := ht
          exact ⟨hexplored, _, List.cons_prefix_cons.2 ⟨rfl, hE⟩, by simp [hj, Session.note]⟩
        · obtain ⟨hexplored, hj, rfl⟩ := ht
          exact ⟨hexplored, by simp [hj, Session.note], rfl⟩
      · exact .of_error (Exploring.on_bind_error hm _) ⟨rfl, [], List.nil_prefix, by simp⟩

theorem not_ran_mem_lostRows (explored : List Decision.Context) (b' : Benchmark) (c : Configuration)
    (o : Except Failure CompletedRun) : .ran b' c o ∉ lostRows b root explored ds := by
  simp [lostRows]

/-- The root is given up after the last attempt of a run failed. -/
theorem settles_giveUp {o : Except Failure α} {fault : RunFault} {code : Option Int} {report : RootReport}
    (ho : o = .error (.run fault code)) (hhalts : e.Halts J o) (hj : t.journal = s.journal ++ J)
    (hmissing : report.missing = 0) (hleft : ∃ d ∈ ds, d.context ∉ t.explored) :
    let done := (Explorer.giveUp b ds report fault).on t
    ∃ K, done.2.journal = s.journal ++ K ∧ e.Resolves b report.root ds K done.2 done.1 := by
  intro done
  obtain ⟨E, hE, hexplored, hgiven⟩ : ∃ E, done.2.journal = t.journal ++ E ∧ done.2.explored = t.explored ∧
      ((E = lostRows b report.root t.explored ds ∧ ∃ r, done.1 = .ok r ∧ r.state = .exhausted ∧
        r.reason = fault.message ∧ r.missing = E.length) ∨
      ∃ failure, done.1 = .error failure ∧ E <+: lostRows b report.root t.explored ds) := by
    have hyields : (Explorer.giveUp b ds report fault).Yields t
        (fun r u => u.explored = t.explored ∧ u.journal = t.journal ++ lostRows b report.root t.explored ds ∧
          r.state = .exhausted ∧ r.reason = fault.message ∧
          r.missing = (lostRows b report.root t.explored ds).length)
        (fun _ u => u.explored = t.explored ∧ ∃ E, E <+: lostRows b report.root t.explored ds ∧
          u.journal = t.journal ++ E) := by
      unfold Explorer.giveUp
      refine .after (Exploring.on_say _ t) ((emitMissing_yields_lost b report.root ds _).bind fun n u h => ?_)
      exact .pure ⟨h.1, h.2.1, rfl, rfl, by rw [hmissing, Nat.zero_add]; exact h.2.2⟩
    rcases hdone : done with ⟨failure | r, u⟩
    · obtain ⟨hexplored, E, hE, hj⟩ := hyields.error failure u hdone
      exact ⟨E, hj, hexplored, .inr ⟨failure, rfl, hE⟩⟩
    · obtain ⟨hexplored, hj, hstate, hreason, hcount⟩ := hyields.ok r u hdone
      exact ⟨_, hj, hexplored, .inl ⟨rfl, r, rfl, hstate, hreason, hcount⟩⟩
  refine ⟨J ++ E, by rw [hE, hj, List.append_assoc], fun A b' c fault' code' B hf => ?_⟩
  rcases hf.append_cases with ⟨A', rfl, hlate⟩ | ⟨B', rfl, hearly⟩
  · have hmem := hlate.mem
    rcases hgiven with ⟨rfl, -⟩ | ⟨-, -, hrows⟩
    · exact (not_ran_mem_lostRows _ _ _ _ hmem).elim
    · exact (not_ran_mem_lostRows _ _ _ _ (hrows.subset hmem)).elim
  · obtain ⟨ht, h⟩ := hhalts A b' c fault' code' B' hearly
    refine ⟨ht, .inr ?_⟩
    rcases h with ⟨-, -, hother⟩ | ⟨hn, rfl, hsame⟩
    · rw [ho] at hother
      cases hother
    · obtain ⟨rfl, rfl⟩ : fault = fault' ∧ code = code' := by simpa using ho.symm.trans hsame
      rw [List.nil_append]
      exact ⟨hn, ds, List.suffix_refl ds, hexplored ▸ hleft, hexplored ▸ hgiven⟩

open Explorer.Settles (later)

/-- A measurement in which a run failed cuts the root short. -/
theorem settles_cutShort {x : Exploring W α} {failure : Failure} {report : RootReport} (hx : e.Measures x)
    (ho : x.on s = (.error failure, t)) (hmissing : report.missing = 0) (hleft : ∃ d ∈ ds, d.context ∉ s.explored) :
    let done := (Explorer.cutShort b ds report failure).on t
    ∃ K, done.2.journal = s.journal ++ K ∧ e.Resolves b report.root ds K done.2 done.1 := by
  obtain ⟨J, hj, hexplored, hhalts⟩ := hx s
  rw [ho] at hj hexplored hhalts
  unfold Explorer.cutShort
  split
  · rename_i point
    refine ⟨J, hj, fun A b' c fault code B hf => ?_⟩
    obtain ⟨ht, ⟨hn, hB, hpoint⟩ | ⟨-, -, hrun⟩⟩ := hhalts A b' c fault code B hf
    · obtain rfl : point = .afterFailure b'.name c.name := by simpa using hpoint
      exact ⟨ht, .inl ⟨hn, hB, _, rfl, rfl, rfl⟩⟩
    · cases hrun
  · exact settles_giveUp rfl hhalts hj hmissing (by rwa [hexplored])
  · rename_i failure haborted hrun
    refine ⟨J, hj, .of_clear fun A b' c fault code B hf => ?_⟩
    rcases (hhalts A b' c fault code B hf).2 with ⟨-, -, h⟩ | ⟨-, -, h⟩
    · exact haborted _ (Except.error.inj h)
    · exact hrun _ _ (Except.error.inj h)

/-- A pair is recorded, and the tree grows on as `hgrow` has it. -/
theorem record_settles {f : Forest} {child : Tree} {parentRun childRun : Measurement} {report : RootReport}
    {d : Decision} {rest : List Decision}
    (hgrow : ∀ t, e.Settles (e.grow b f child (some childRun) { report with pairs := report.pairs + 1 } rest) b
      report.root rest t) :
    e.Settles (e.record b f report d rest child parentRun childRun) b report.root (d :: rest) s := by
  obtain ⟨next, t, hrecording, hnext⟩ := e.record_recording b f report d rest child parentRun childRun s
  refine .of_on hnext ?_
  cases hrecording with
  | unestimated _ => exact Explorer.Settles.throw _
  | unwritten _ hemit =>
    obtain ⟨J, hj, hJ⟩ := clear_of_emitMeasured hemit
    exact later (Explorer.Settles.throw _) hj hJ
  | written _ hemit hsay =>
    obtain ⟨J, hj, hJ⟩ := clear_of_emitMeasured hemit
    obtain rfl := Exploring.eq_of_say hsay
    exact later ((hgrow _).mono (List.suffix_cons d rest)) hj hJ

/-- Growing a tree. By induction on the decisions that are left. -/
theorem grow_settles (e : Explorer W) (b : Benchmark) (f : Forest) (tree : Tree) (known : Option Measurement)
    (report : RootReport) (hmissing : report.missing = 0) (ds : List Decision) (s : Session W) :
    e.Settles (e.grow b f tree known report ds) b report.root ds s := by
  induction ds generalizing tree known report s with
  | nil => exact .pure _
  | cons d rest ih =>
    obtain ⟨answer, t, hpoll, next, u, hturn, hnext⟩ := e.grow_turn b f report d rest tree known s
    obtain ⟨J, hj, -, hJ⟩ := e.poll_measures.clear hpoll
    refine .of_on hnext ?_
    cases hturn with
    | aborted => exact later (Explorer.Settles.pure _) hj hJ
    | refused _ => exact later (Explorer.Settles.throw _) hj hJ
    | @passed _ child _ _ =>
      have hrest := ih child none { report with skipped := report.skipped + 1 } hmissing t
      exact later (hrest.mono (List.suffix_cons d rest)) hj hJ
    | @unpaired _ _ child _ _ hd hpair =>
      have hmeasures := e.measurePair_measures b tree known child
      exact later (settles_cutShort hmeasures hpair hmissing ⟨d, List.mem_cons_self .., hd⟩) hj hJ
    | @paired _ _ child parentRun childRun _ _ hpair =>
      obtain ⟨K, hk, -, hK⟩ := (e.measurePair_measures b tree known child).clear hpair
      have hrecord : e.Settles (e.record b f report d rest child parentRun childRun) b report.root (d :: rest) u :=
        record_settles (ih child _ { report with pairs := report.pairs + 1 } hmissing)
      exact later (later hrecord hk hK) hj hJ

theorem exploreTree_settles (e : Explorer W) (b : Benchmark) (f : Forest) (full : Tree) (s : Session W)
    (hleft : ∃ d ∈ full.decisions, d.context ∉ s.explored) :
    e.Settles (e.exploreTree b f full) b full.root full.decisions s := by
  obtain ⟨next, t, hentry, hnext⟩ := e.exploreTree_entry b f full s
  refine .of_on hnext ?_
  cases hentry with
  | unmeasured hends => exact settles_cutShort (e.measureEnds_measures b full) hends rfl hleft
  | unjudged hends _ =>
    obtain ⟨J, hj, -, hJ⟩ := (e.measureEnds_measures b full).clear hends
    exact later (Explorer.Settles.throw _) hj hJ
  | shortCircuited hends _ hsay =>
    obtain ⟨J, hj, -, hJ⟩ := (e.measureEnds_measures b full).clear hends
    obtain rfl := Exploring.eq_of_say hsay
    exact later (Explorer.Settles.pure _) hj hJ
  | grown hends _ =>
    obtain ⟨J, hj, -, hJ⟩ := (e.measureEnds_measures b full).clear hends
    exact later (grow_settles e b f _ _ { root := full.root, state := .measuring } rfl _ t) hj hJ

theorem exploreRoot_settles (e : Explorer W) (b : Benchmark) (f : Forest) (root : MethodId) (s : Session W) :
    e.Settles (e.exploreRoot b f root) b root (f.decisionsOf root) s := by
  have hstill (o : Except Failure RootReport) : ∃ J, s.journal = s.journal ++ J ∧
      e.Resolves b root (f.decisionsOf root) J s o :=
    ⟨[], by simp, .of_clear (clear_of_silent (by simp))⟩
  unfold Explorer.Settles
  have hopening := e.exploreRoot_opening b f root s
  generalize (e.exploreRoot b f root).on s = done at hopening
  cases hopening with
  | refused h => exact hstill _
  | bare h hnone => exact hstill _
  | explored h hne hall => exact hstill _
  | @entered full h hleft =>
    obtain rfl := Forest.root_of_tree h
    have hds : f.decisionsOf full.root = full.decisions := by rw [Forest.decisionsOf, h]
    rw [hds]
    exact exploreTree_settles e b f full s hleft

/-- Take any root, from any session, and a run in its exploration that fails, and after which every answer
is that an abort is requested. If the run was not the last attempt, then the abort is asked for next, and
the root ends aborted without a further row. If it was the last, then the root is given up: nothing is run
any more, and every decision from the one that was up on gets a row without data, unless it is explored. -/
theorem exploreRoot_resolves (e : Explorer W) (b : Benchmark) (f : Forest) (root : MethodId) (s : Session W) :
    let done := (e.exploreRoot b f root).on s
    ∃ J, done.2.journal = s.journal ++ J ∧
      ∀ A b' c fault code B, J = A ++ .ran b' c (.error (.run fault code)) :: B → Pending B →
        (tries A < e.settings.maxRetries ∧ B = [.polled true] ∧ ∃ r, done.1 = .ok r ∧ r.state = .aborted ∧
          r.reason = (AbortPoint.afterFailure b'.name c.name).message) ∨
        tries A = e.settings.maxRetries ∧ GivenUp b root (f.decisionsOf root) fault done.2 B done.1 := by
  obtain ⟨J, hj, hJ⟩ := exploreRoot_settles e b f root s
  exact ⟨J, hj, fun A b' c fault code B hsplit hB => (hJ A b' c fault code B ⟨hsplit, hB⟩).2⟩

end Resolving

section Late

/-- No run comes to anything, and the abort is requested while the third run goes on. -/
def hopeless : Script := { run := fun _ => .error (.run (.reported "crashed") none), abort := fun n => decide (3 ≤ n) }

/-- The third run of the empty tree is the last attempt. The abort is requested while it goes on and stays
so, and yet the root does not end aborted but exhausted, and its decision gets a row without data. -/
theorem exploreRoot_hopeless_gives_up : ∃ r t A b c row,
    (hopeless.explorer.exploreRoot early Script.forest Script.full.root).on (Session.fresh 0 bareFiles none) =
      (.ok r, t) ∧
    t.journal = A ++ [.ran b c (.error (.run (.reported "crashed") none)), .emitted row] ∧
    t.world = 3 ∧ hopeless.abort 2 = false ∧ (∀ n, 3 ≤ n → hopeless.abort n = true) ∧
    r.state = .exhausted ∧ r.missing = 1 ∧ row.estimate = none := by
  have hgo : ∀ n ≤ 0 + 2, hopeless.abort n = false := by decide
  obtain ⟨c, t, hfailed, hmeasure⟩ := hopeless.on_measureTree_failing (fun _ => rfl) (s := .fresh 0 bareFiles none)
    bareFiles_fits early 0 rfl hgo
  obtain ⟨J, hJ⟩ := hfailed.journal
  have hends : (hopeless.explorer.measureEnds early Script.full).on (Session.fresh 0 bareFiles none) = _ :=
    Exploring.on_bind_error hmeasure _
  obtain ⟨d, u, hgiven, hworld, hrow⟩ := Script.on_giveUp hfailed.dataset hfailed.explored early
    { root := Script.full.root, state := .measuring } (.reported "crashed")
  refine ⟨⟨Script.full.root, .exhausted, 0, 0, 1, "crashed"⟩, u, J, early, c, ⟨early.name, Script.full.root, d, none⟩, ?_, ?_,
    hworld.trans hfailed.world, rfl, fun n hn => decide_eq_true hn, rfl, rfl, rfl⟩
  · rw [hopeless.on_exploreRoot early fun _ _ => List.not_mem_nil, hopeless.explorer.on_exploreTree_of_error hends]
    exact hgiven
  · rw [hrow, hJ]
    simp [Session.fresh]

end Late

end InlineImpact.Exploration
