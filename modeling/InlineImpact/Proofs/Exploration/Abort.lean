import InlineImpact.Proofs.Exploration.Memory

/-!
When an abort request takes effect. Between a run and the next one it is asked whether an abort is
requested, with one exception: a tree that is measured again, since the decision before was skipped,
and its child are run one right after the other. `Explorer.Heeds` says so of a stretch of the journal,
and `explore_heeds` proves it of every exploration.
-/
namespace InlineImpact.Exploration

open Journal

variable {W α β : Type}

namespace Journal

/-- Whenever it was asked, an abort was requested. -/
def Pending (J : List Event) : Prop := ∀ answer, .polled answer ∈ J → answer = true

/-- The runs that were started, by benchmark and configuration. -/
def launches (J : List Event) : List (String × String) := J.filterMap Event.launch?

@[simp] theorem launches_append (J K : List Event) : launches (J ++ K) = launches J ++ launches K :=
  List.filterMap_append

@[simp] theorem pending_append {J K : List Event} : Pending (J ++ K) ↔ Pending J ∧ Pending K := by
  simp only [Pending, List.mem_append]
  grind

theorem pending_cons {ev : Event} {J : List Event} :
    Pending (ev :: J) ↔ Pending [ev] ∧ Pending J :=
  pending_append (J := [ev])

theorem not_pending_of_mem {J : List Event} (h : .polled false ∈ J) : ¬Pending J :=
  fun hp => Bool.false_ne_true (hp false h)

end Journal

/-- Neither a run nor something that belongs to one. -/
def Event.Aside : Event → Prop
  | prepared _ | ran .. | loaded _ => False
  | reported _ | polled _ | emitted _ => True

/-- Events that are no runs and belong to none, whatever was before. -/
def Journal.Asides (_ J : List Event) : Prop := ∀ ev ∈ J, ev.Aside

theorem launches_of_aside {H J : List Event} (h : Asides H J) : launches J = [] :=
  List.filterMap_eq_nil_iff.2 fun ev hev => by
    have := h ev hev
    cases ev <;> first | rfl | cases this

section Heeding

variable (e : Explorer W)

/-- After the events `A` the benchmark's run replayed a tree and counted, and a child of that tree was
written out at once. The child's run under `c'` is not remembered. -/
def Explorer.ChildNext (A : List Event) (b : Benchmark) (c : Configuration)
    (o : Except Failure CompletedRun) (B : List Event) (c' : Configuration) : Prop :=
  ∃ parent d child run m rest,
    replayed A = some parent ∧ Replay.configurationOf parent e.settings.resultsDir = .ok c ∧
    parent.insert d = .ok child ∧ Replay.configurationOf child e.settings.resultsDir = .ok c' ∧
    o = .ok run ∧ B = .loaded (.ok m) :: .prepared child :: rest ∧
    ∀ X b'' c'' m'', CountedAfter X (A ++ [.ran b c o, .loaded (.ok m)]) b'' c'' m'' →
      (b''.name, c''.name) ≠ (b.name, c'.name)

/-- In the events `J`, which come after `H`: if from some run on every answer is that an abort is
requested, then at most one more run is started after that one, and one is started only if the run was
that of a parent whose child is up next. -/
def Explorer.Heeds (H J : List Event) : Prop :=
  ∀ A b c o B, J = A ++ .ran b c o :: B → Pending B →
    (launches B).length ≤ 1 ∧
      ∀ key, key ∈ launches B ↔ ∃ c', e.ChildNext (H ++ A) b c o B c' ∧ (b.name, c'.name) = key

/-- As `Heeds`; besides, an abort that is requested already lets no run start at all. -/
structure Explorer.Checked (H J : List Event) : Prop where
  heeds : e.Heeds H J
  aside : ∀ ev ∈ J.head?, ev.Aside
  launches_eq : Pending J → launches J = []

variable {e} {H J K : List Event}

theorem childNext_append {A B : List Event} {b : Benchmark} {c c' : Configuration}
    {o : Except Failure CompletedRun} (hK : ∀ ev ∈ K.head?, ev.Aside) :
    e.ChildNext A b c o (B ++ K) c' ↔ e.ChildNext A b c o B c' := by
  constructor
  · rintro ⟨parent, d, child, run, m, rest, ht, hc, hd, hc', ho, hB, hn⟩
    rcases B with _ | ⟨ev, _ | ⟨ev', B⟩⟩
    · obtain rfl : K = _ := hB
      exact (hK _ rfl).elim
    · obtain ⟨-, rfl⟩ := List.cons_eq_cons.1 hB
      exact (hK _ rfl).elim
    · obtain ⟨rfl, rfl, -⟩ : ev = .loaded (.ok m) ∧ ev' = .prepared child ∧ B ++ K = rest := by
        simpa using hB
      exact ⟨parent, d, child, run, m, B, ht, hc, hd, hc', ho, rfl, hn⟩
  · rintro ⟨parent, d, child, run, m, rest, ht, hc, hd, hc', ho, rfl, hn⟩
    exact ⟨parent, d, child, run, m, rest ++ K, ht, hc, hd, hc', ho, rfl, hn⟩

theorem heeds_of_aside (h : Asides H J) : e.Heeds H J := by
  rintro A b c o B rfl
  exact (h (.ran b c o) (by simp)).elim

theorem checked_of_aside (h : Asides H J) : e.Checked H J :=
  ⟨heeds_of_aside h, fun ev hev => h ev (List.mem_of_mem_head? hev), fun _ => launches_of_aside h⟩

/-- Nothing after a run matters to it if a question comes first. -/
theorem Explorer.Heeds.append (hJ : e.Heeds H J) (hK : e.Checked (H ++ J) K) : e.Heeds H (J ++ K) := by
  intro A b c o B hsplit hB
  rcases split_append hsplit with ⟨A', rfl, hA⟩ | ⟨J', hJ', rfl⟩
  · simpa using hK.heeds A' b c o B hA hB
  · obtain ⟨hB', hKp⟩ := pending_append.1 hB
    simpa only [launches_append, hK.launches_eq hKp, List.append_nil, childNext_append hK.aside]
      using hJ A b c o J' hJ' hB'

theorem Explorer.Checked.append (hJ : e.Checked H J) (hK : e.Checked (H ++ J) K) :
    e.Checked H (J ++ K) := by
  refine ⟨hJ.heeds.append hK, fun ev hev => ?_, fun hp => ?_⟩
  · rcases J with _ | ⟨ev', J⟩
    · exact hK.aside ev hev
    · exact hJ.aside ev hev
  · obtain ⟨hJp, hKp⟩ := pending_append.1 hp
    simp [hJ.launches_eq hJp, hK.launches_eq hKp]

/-- Events with no run among them. -/
theorem Explorer.Heeds.after_launch_free (hJ : ∀ ev ∈ J, ev.launch? = none) (hK : e.Heeds (H ++ J) K) :
    e.Heeds H (J ++ K) := by
  intro A b c o B hsplit hB
  rcases split_append hsplit with ⟨A', rfl, hA⟩ | ⟨J', rfl, -⟩
  · simpa using hK A' b c o B hA hB
  · have := hJ (.ran b c o) (by simp)
    cases this

/-- The answer that no abort is requested opens the way. -/
theorem Explorer.Heeds.unless_polled (hK : e.Heeds (H ++ [.polled false]) K) :
    e.Checked H (.polled false :: K) where
  heeds := hK.after_launch_free (J := [.polled false]) (by simp [Event.launch?])
  aside := by simp [Event.Aside]
  launches_eq hp := (not_pending_of_mem (by simp) hp).elim

end Heeding

section Block

variable {e : Explorer W} {b b' : Benchmark} {c c' : Configuration} {left : Nat} {A B J : List Event}
  {o : Except Failure (CompletedRun × Measurement)} {o' : Except Failure CompletedRun}

/-- While an abort is requested, a run of a block is its last; if the block comes to a measurement,
the run is the one that counted. -/
theorem Block.last_of_pending (h : Block b c left J o) (hJ : J = A ++ .ran b' c' o' :: B)
    (hB : Pending B) :
    launches B = [] ∧ ∀ run m, o = .ok (run, m) → o' = .ok run ∧ B = [.loaded (.ok m)] := by
  induction h generalizing A with
  | last h =>
    cases h <;> rcases A with _ | ⟨ev, _ | ⟨ev', A⟩⟩ <;> simp at hJ
    · simp [hJ, launches]
    · simp [← hJ.2, launches, Event.launch?]
    · simp [← hJ, launches, Event.launch?]
  | aborted h =>
    refine ⟨?_, by simp⟩
    cases h <;> rcases A with _ | ⟨ev, _ | ⟨ev', _ | ⟨ev'', A⟩⟩⟩ <;> simp at hJ <;>
      simp [← hJ, launches, Event.launch?]
  | again h h' ih =>
    rcases split_append hJ with ⟨A', -, hA⟩ | ⟨J', -, rfl⟩
    · rcases A' with _ | ⟨ev, A'⟩
      · simp at hA
      · exact ih (List.cons_eq_cons.1 hA).2
    · exact (not_pending_of_mem (by simp) hB).elim

theorem Block.not_childNext (h : Block b c left J o) (hJ : J = A ++ .ran b' c' o' :: B)
    (H : List Event) (c'' : Configuration) : ¬e.ChildNext H b' c' o' B c'' := by
  rintro ⟨_, _, child, _, m, rest, -, -, -, -, -, rfl, -⟩
  have hmem : .prepared child ∈ J := by simp [hJ]
  simpa using h.mem_cases hmem

theorem Block.heeds (h : Block b c left J o) (H : List Event) : e.Heeds H J := by
  intro A b' c' o' B hJ hB
  simp [(h.last_of_pending hJ hB).1, h.not_childNext hJ]

/-- While an abort is requested, a block is one run. -/
theorem Block.launches_of_pending (h : Block b c left J o) (hJ : Pending J) :
    launches J = [(b.name, c.name)] := by
  obtain ⟨o', rest, rfl⟩ := h.exists_cons
  have hrest := (h.last_of_pending (A := []) rfl (pending_cons.1 hJ).2).1
  simp only [launches] at hrest
  simp [launches, Event.launch?, hrest]

end Block

/-- From every session, the operation adds events to the journal as `R` allows after those before. -/
def Explorer.Obeys (e : Explorer W) (R : List Event → List Event → Prop) (x : Exploring W α) : Prop :=
  ∀ s, Remembering e s → Remembering e (x.on s).2 ∧
    ∃ J, (x.on s).2.journal = s.journal ++ J ∧ R s.journal J

namespace Explorer.Obeys

variable {e : Explorer W} {R R' R'' : List Event → List Event → Prop} {x : Exploring W α}
  {k : α → Exploring W β}

theorem mono (hx : e.Obeys R x) (h : ∀ H J, R H J → R' H J) : e.Obeys R' x := by
  intro s hs
  obtain ⟨ht, J, hj, hR⟩ := hx s hs
  exact ⟨ht, J, hj, h _ _ hR⟩

/-- What the second operation adds comes after what the first added. -/
theorem bind (hx : e.Obeys R x) (hk : ∀ a, e.Obeys R' (k a)) (hR : ∀ H J, R H J → R'' H J)
    (happ : ∀ H J K, R H J → R' (H ++ J) K → R'' H (J ++ K)) : e.Obeys R'' (x >>= k) := by
  intro s hs
  obtain ⟨ht, J, hj, hJ⟩ := hx s hs
  rcases h : x.on s with ⟨o, t⟩
  rw [h] at ht hj
  cases o with
  | error f =>
    rw [Exploring.on_bind_error h]
    exact ⟨ht, J, hj, hR _ _ hJ⟩
  | ok a =>
    rw [Exploring.on_bind_ok h]
    obtain ⟨hu, K, hk', hK⟩ := hk a t ht
    exact ⟨hu, J ++ K, by rw [hk', hj, List.append_assoc], happ _ _ _ hJ (hj ▸ hK)⟩

theorem of_still (h : ∀ s, (x.on s).2 = s) : e.Obeys Asides x :=
  fun s hs => by
    rw [h s]
    exact ⟨hs, [], by simp, by simp [Asides]⟩

theorem aside_pure (a : α) : e.Obeys Asides (pure a : Exploring W α) := of_still fun _ => rfl

theorem aside_throw (f : Failure) : e.Obeys Asides (throw f : Exploring W α) := of_still fun _ => rfl

theorem aside_demand (r : Except Failure α) : e.Obeys Asides (demand r : Exploring W α) :=
  of_still fun _ => rfl

theorem aside_get : e.Obeys Asides (get : Exploring W (Session W)) := of_still fun _ => rfl

theorem caught (hx : e.Obeys R x) : e.Obeys R (caught x) := hx

theorem checked (hx : e.Obeys Asides x) : e.Obeys e.Checked x := hx.mono fun _ _ => checked_of_aside

theorem heeds (hx : e.Obeys e.Checked x) : e.Obeys e.Heeds x := hx.mono fun _ _ h => h.heeds

theorem aside_bind (hx : e.Obeys Asides x) (hk : ∀ a, e.Obeys Asides (k a)) :
    e.Obeys Asides (x >>= k) :=
  hx.bind hk (fun _ _ h => h) fun _ _ _ hJ hK ev hev =>
    (List.mem_append.1 hev).elim (hJ ev) (hK ev)

theorem checked_bind (hx : e.Obeys e.Checked x) (hk : ∀ a, e.Obeys e.Checked (k a)) :
    e.Obeys e.Checked (x >>= k) :=
  hx.bind hk (fun _ _ h => h) fun _ _ _ => .append

theorem heeds_bind (hx : e.Obeys e.Heeds x) (hk : ∀ a, e.Obeys e.Checked (k a)) :
    e.Obeys e.Heeds (x >>= k) :=
  hx.bind hk (fun _ _ h => h) fun _ _ _ => .append

theorem aside_heeds_bind (hx : e.Obeys Asides x) (hk : ∀ a, e.Obeys e.Heeds (k a)) :
    e.Obeys e.Heeds (x >>= k) :=
  hx.bind hk (fun _ _ => heeds_of_aside) fun _ _ _ hJ =>
    Heeds.after_launch_free fun ev hev => by
      have := hJ ev hev
      cases ev <;> first | rfl | cases this

theorem demand_heeds_bind {r : Except Failure α} (hk : ∀ a, r = .ok a → e.Obeys e.Heeds (k a)) :
    e.Obeys e.Heeds (demand r >>= k) := by
  cases r with
  | error f => exact (of_still fun _ => rfl).checked.heeds
  | ok a => exact hk a rfl

/-- An operation that goes on to runs only if no abort is requested. -/
theorem poll_bind {k : Bool → Exploring W β} (htrue : e.Obeys Asides (k true))
    (hfalse : e.Obeys e.Heeds (k false)) : e.Obeys e.Checked (e.poll >>= k) := by
  intro s hs
  obtain ⟨answer, t, ht⟩ : ∃ answer t, e.poll.on s = (.ok answer, t) := ⟨_, _, e.on_poll s⟩
  have hadds := Session.Adds.of_poll ht
  have hst : Remembering e t := by
    have := hs.quiet (.poll (e := e) s)
    rwa [ht] at this
  rw [Exploring.on_bind_ok ht]
  cases answer with
  | true =>
    obtain ⟨hu, K, hj, hK⟩ := htrue t hst
    refine ⟨hu, .polled true :: K, by simp [hj, hadds.journal], checked_of_aside ?_⟩
    exact List.forall_mem_cons.2 ⟨trivial, hK⟩
  | false =>
    obtain ⟨hu, K, hj, hK⟩ := hfalse t hst
    refine ⟨hu, .polled false :: K, by simp [hj, hadds.journal], ?_⟩
    exact Heeds.unless_polled (hadds.journal ▸ hK)

end Explorer.Obeys

namespace Explorer

open Obeys

variable (e : Explorer W)

theorem say_aside (text : String) : e.Obeys Asides (say text : Exploring W Unit) :=
  fun s hs => ⟨hs.quiet (.say s text), [], by simp, by simp [Asides]⟩

theorem emit_aside (b : Benchmark) (root : MethodId) (d : Decision) (o : Option Estimate) :
    e.Obeys Asides (emit ⟨b.name, root, d, o⟩ : Exploring W Unit) := by
  intro s hs
  rcases on_emit ⟨b.name, root, d, o⟩ s with ⟨ds, ws, hm⟩ | ⟨f, ds, ws, hm⟩ <;> rw [hm]
  · exact ⟨hs.emitted rfl rfl, _, rfl, by simp [Asides, Event.Aside]⟩
  · exact ⟨hs.congr rfl rfl, [], by simp, by simp [Asides]⟩

theorem markExplored_aside (c : Decision.Context) :
    e.Obeys Asides (markExplored c : Exploring W Unit) := by
  intro s hs
  rw [Exploring.on_markExplored]
  split
  · exact ⟨hs, [], by simp, by simp [Asides]⟩
  · exact ⟨hs.congr rfl rfl, [], by simp, by simp [Asides]⟩

theorem emitMissing_aside (b : Benchmark) (root : MethodId) (ds : List Decision) :
    e.Obeys Asides (emitMissing b root ds : Exploring W Nat) := by
  induction ds with
  | nil => exact aside_pure _
  | cons d rest ih =>
    refine (of_still fun _ => rfl).aside_bind fun explored => ?_
    cases explored with
    | true => exact ih
    | false => exact (e.emit_aside b root d none).aside_bind fun _ => ih.aside_bind fun _ => aside_pure _

theorem giveUp_aside (b : Benchmark) (ds : List Decision) (report : RootReport) (fault : RunFault) :
    e.Obeys Asides (giveUp b ds report fault : Exploring W RootReport) :=
  (e.say_aside _).aside_bind fun _ => (e.emitMissing_aside b _ ds).aside_bind fun _ => aside_pure _

theorem measureTree_heeds (b : Benchmark) (t : Tree) : e.Obeys e.Heeds (e.measureTree b t) := by
  intro s hs
  have hspec := e.measureTree_spec b t s
  refine ⟨hs.measureTree, ?_⟩
  generalize (e.measureTree b t).on s = r at hspec
  obtain ⟨o, u⟩ := r
  have hlone : e.Heeds s.journal [.prepared t] := by
    intro A b' c o' B hA
    rcases A with _ | ⟨ev, A⟩ <;> simp at hA
  have hblock {c left J o} (hb : Block b c left J o) : e.Heeds s.journal (.prepared t :: J) :=
    (hb.heeds _).after_launch_free (J := [.prepared t]) (by simp [Event.launch?])
  cases hspec with
  | unprepared f => exact ⟨[], by simp, heeds_of_aside (by simp [Asides])⟩
  | remembered hc hm hadds => exact ⟨_, hadds.journal, hlone⟩
  | refused hc hr hadds => exact ⟨_, hadds.journal, hlone⟩
  | failed hc hn hr hb hadds => exact ⟨_, hadds.journal, hblock hb⟩
  | counted hc hn hr hb hadds => exact ⟨_, hadds.journal, hblock hb⟩

theorem fullForest_heeds (b : Benchmark) : e.Obeys e.Heeds (e.fullForest b) := by
  intro s hs
  have hspec := e.fullForest_spec b s
  refine ⟨hs.fullForest, ?_⟩
  generalize (e.fullForest b).on s = r at hspec
  obtain ⟨o, u⟩ := r
  cases hspec with
  | refused f hr => exact ⟨[], by simp, heeds_of_aside (by simp [Asides])⟩
  | failed hb hadds => exact ⟨_, hadds.journal, hb.heeds _⟩
  | unreported hb hadds => exact ⟨_, hadds.journal, hb.heeds _⟩
  | captured hb hf hadds =>
    refine ⟨_, hadds.journal, (hb.heeds _).append (checked_of_aside ?_)⟩
    simp [Asides, Event.Aside]

theorem measureEnds_heeds (b : Benchmark) (full : Tree) : e.Obeys e.Heeds (e.measureEnds b full) :=
  (e.measureTree_heeds b _).heeds_bind fun _ =>
    .poll_bind (of_still fun _ => rfl)
      ((e.measureTree_heeds b full).heeds_bind fun _ => (aside_pure _).checked)

/-- A run counted for the parent, and the child is measured next. A run of the child is started if
and only if none is remembered, and while an abort is requested it is the only one. -/
theorem launches_of_child {b : Benchmark} {parent child : Tree} {d : Decision} {c : Configuration}
    {run : CompletedRun} {m : Measurement} {A : List Event} {u v : Session W}
    {o : Except Failure Measurement} (hu : Remembering e u)
    (hj : u.journal = A ++ [.ran b c (.ok run), .loaded (.ok m)]) (ht : replayed A = some parent)
    (hc : Replay.configurationOf parent e.settings.resultsDir = .ok c)
    (hd : parent.insert d = .ok child) (hr : 0 ≤ e.settings.maxRetries)
    (hm : e.Measuring b child u o v) :
    ∃ K, v.journal = u.journal ++ K ∧ (Pending K →
      (launches K).length ≤ 1 ∧ ∀ key, key ∈ launches K ↔
        ∃ c', e.ChildNext A b c (.ok run) (.loaded (.ok m) :: K) c' ∧ (b.name, c'.name) = key) := by
  have hblock : ∀ {c' left J o'}, Replay.configurationOf child e.settings.resultsDir = .ok c' →
      u.measurements.get? (b.name, c'.name) = none → Block b c' left J o' →
      Pending (.prepared child :: J) →
      (launches (.prepared child :: J)).length ≤ 1 ∧ ∀ key, key ∈ launches (.prepared child :: J) ↔
        ∃ c'', e.ChildNext A b c (.ok run) (.loaded (.ok m) :: .prepared child :: J) c'' ∧
          (b.name, c''.name) = key := by
    intro c' left J o' hc' hn hb hp
    have hl : launches (.prepared child :: J) = [(b.name, c'.name)] :=
      hb.launches_of_pending (pending_cons.1 hp).2
    rw [hl]
    refine ⟨Nat.le_refl 1, fun key => ?_⟩
    rw [List.mem_singleton]
    constructor
    · rintro rfl
      refine ⟨c', ⟨parent, d, child, run, m, J, ht, hc, hd, hc', rfl, rfl, ?_⟩, rfl⟩
      rintro X b'' c'' m'' hcount hkey
      exact hu.complete X b'' c'' m'' (hj ▸ hcount) (hkey ▸ hn)
    · rintro ⟨c'', ⟨_, _, child', _, _, _, -, -, -, hc'', -, hB, -⟩, rfl⟩
      obtain ⟨-, rfl, -⟩ : m = _ ∧ child = child' ∧ J = _ := by simpa using hB
      rw [Except.ok.inj (hc'.symm.trans hc'')]
  cases hm with
  | unprepared f =>
    refine ⟨[], by simp, fun _ => ⟨Nat.zero_le 1, fun key => iff_of_false (by simp [launches]) ?_⟩⟩
    rintro ⟨c', ⟨_, _, _, _, _, _, -, -, -, -, -, hB, -⟩, -⟩
    simp at hB
  | @remembered c' m' _ hc' hget hs =>
    refine ⟨_, hs.journal, fun _ => ⟨Nat.zero_le 1, fun key =>
      iff_of_false (by simp [launches, Event.launch?]) ?_⟩⟩
    rintro ⟨c'', ⟨_, _, child', _, _, _, -, -, -, hc'', -, hB, hn⟩, -⟩
    obtain ⟨rfl, rfl, -⟩ : m = _ ∧ child = child' ∧ [] = _ := by simpa using hB
    obtain rfl := Except.ok.inj (hc'.symm.trans hc'')
    obtain ⟨X, b'', c'', hcount, hkey⟩ := hu.sound _ _ hget
    exact hn X b'' c'' m' (hj ▸ hcount) hkey
  | refused hc' hneg hs => omega
  | failed hc' hn _ hb hs => exact ⟨_, hs.journal, hblock hc' hn hb⟩
  | counted hc' hn _ hb hs => exact ⟨_, hs.journal, hblock hc' hn hb⟩

/-- The one place where no question stands between two runs. -/
theorem measurePair_heeds (b : Benchmark) {parent child : Tree} {d : Decision}
    (known : Option Measurement) (hd : parent.insert d = .ok child) :
    e.Obeys e.Heeds (e.measurePair b parent known child) := by
  cases known with
  | some m =>
    exact (aside_pure m).aside_heeds_bind fun _ => (e.measureTree_heeds b child).heeds_bind fun _ =>
      (aside_pure _).checked
  | none =>
    intro s hs
    have hparent := e.measureTree_heeds b parent s hs
    have hspec := e.measureTree_spec b parent s
    rcases ho : (e.measureTree b parent).on s with ⟨o, u⟩
    rw [ho] at hparent hspec
    obtain ⟨hu, J, hj, hJ⟩ := hparent
    cases o with
    | error f =>
      rw [measurePair, Exploring.on_bind_error ho]
      exact ⟨hu, J, hj, hJ⟩
    | ok r =>
      obtain ⟨hv, K, hk, hK⟩ := e.measureTree_heeds b child u hu
      rw [measurePair, Exploring.on_bind_ok ho, Exploring.on_bind_pure]
      refine ⟨hv, J ++ K, by rw [hk, hj, List.append_assoc], ?_⟩
      rw [hj] at hK
      cases hspec with
      | remembered hc hm hs =>
        obtain rfl := List.append_cancel_left (hj.symm.trans hs.journal)
        exact hK.after_launch_free (by simp [Event.launch?])
      | @counted c J₀ run _ _ hc hn hr hb hs =>
        obtain rfl := List.append_cancel_left (hj.symm.trans hs.journal)
        obtain ⟨A₀, hJ₀⟩ := hb.exists_counted rfl
        intro A b' c' o' B hsplit hB
        rcases split_append hsplit with ⟨A', rfl, hA⟩ | ⟨J', hJ', rfl⟩
        · simpa using hK A' b' c' o' B hA hB
        · rcases A with _ | ⟨ev, A⟩ <;> simp at hJ'
          obtain ⟨rfl, hJ'⟩ := hJ'
          obtain ⟨hpJ, hpK⟩ := pending_append.1 hB
          -- only the run that counted has nothing asked after it
          obtain ⟨rfl, rfl⟩ := (hb.last_of_pending hJ' hpJ).2 _ _ rfl
          obtain ⟨rfl, hlast⟩ := List.append_inj' (hJ'.symm.trans hJ₀) rfl
          obtain ⟨rfl, rfl⟩ : b' = b ∧ c' = c := by simpa using hlast
          have hu' : u.journal =
              (s.journal ++ .prepared parent :: A) ++ [.ran b' c' (.ok run), .loaded (.ok r)] := by
            rw [hj, hJ₀]
            simp
          have ht := Block.replayed_eq (hJ₀ ▸ hb) s.journal parent
          obtain ⟨K', hk', hK'⟩ := e.launches_of_child hu hu' ht hc hd hr (e.measureTree_spec b' child u)
          obtain rfl := List.append_cancel_left (hk.symm.trans hk')
          exact hK' hpK

theorem cutShort_aside (b : Benchmark) (ds : List Decision) (report : RootReport) (failure : Failure) :
    e.Obeys Asides (cutShort b ds report failure : Exploring W RootReport) := by
  cases failure with
  | aborted point => exact aside_pure _
  | run fault code => exact e.giveUp_aside b ds report fault
  | _ => exact aside_throw _

theorem grow_checked (b : Benchmark) (f : Forest) (tree : Tree) (parent : Option Measurement)
    (report : RootReport) (ds : List Decision) :
    e.Obeys e.Checked (e.grow b f tree parent report ds) := by
  induction ds generalizing tree parent report with
  | nil => exact (aside_pure _).checked
  | cons d rest ih =>
    rw [grow_cons]
    refine poll_bind (aside_pure _) (demand_heeds_bind fun child hd => ?_)
    have hd : tree.insert d = .ok child := mapError_eq_ok.1 hd
    refine (of_still fun _ => rfl).aside_heeds_bind fun explored => ?_
    cases explored with
    | true => exact heeds (ih _ _ _)
    | false =>
      refine (e.measurePair_heeds b parent hd).caught.heeds_bind fun o => ?_
      rcases o with failure | ⟨parentRun, childRun⟩
      · exact (e.cutShort_aside b _ report failure).checked
      · refine (aside_demand _).checked.checked_bind fun est => ?_
        have hemit : e.Obeys Asides (emitMeasured b report.root d est : Exploring W Unit) :=
          (e.emit_aside b _ d _).aside_bind fun _ => e.markExplored_aside _
        refine hemit.checked.checked_bind fun _ => ?_
        dsimp only
        split
        · exact (e.say_aside _).checked.checked_bind fun _ => ih _ _ _
        · exact ih _ _ _

theorem exploreTree_heeds (b : Benchmark) (f : Forest) (full : Tree) :
    e.Obeys e.Heeds (e.exploreTree b f full) := by
  rw [exploreTree_eq]
  refine (e.measureEnds_heeds b full).caught.heeds_bind fun o => ?_
  rcases o with failure | ⟨emptyRun, fullRun⟩
  · exact (e.cutShort_aside b _ _ failure).checked
  · refine (aside_demand _).checked.checked_bind fun noise => ?_
    cases noise with
    | false => exact e.grow_checked b f _ _ _ _
    | true =>
      rw [if_pos rfl]
      split
      · exact ((e.say_aside _).aside_bind fun _ => aside_pure _).checked
      · exact (aside_pure _).checked

theorem exploreRoot_heeds (b : Benchmark) (f : Forest) (root : MethodId) :
    e.Obeys e.Heeds (e.exploreRoot b f root) := by
  refine (aside_demand _).aside_heeds_bind fun full => aside_get.aside_heeds_bind fun s => ?_
  dsimp only
  split
  · exact (aside_pure _).checked.heeds
  · split
    · exact (aside_pure _).checked.heeds
    · exact e.exploreTree_heeds b f full

theorem exploreRoots_checked (b : Benchmark) (f : Forest) (roots : List MethodId) :
    e.Obeys e.Checked (e.exploreRoots b f roots) := by
  induction roots with
  | nil => exact (aside_pure _).checked
  | cons root rest ih =>
    refine poll_bind (aside_pure _) ((e.exploreRoot_heeds b f root).heeds_bind fun report => ?_)
    split
    · exact (aside_pure _).checked
    · exact ih.checked_bind fun _ => (aside_pure _).checked

theorem exploreBenchmark_heeds (b : Benchmark) : e.Obeys e.Heeds (e.exploreBenchmark b) :=
  (e.fullForest_heeds b).heeds_bind fun r => (e.say_aside _).checked.checked_bind fun _ =>
    (e.exploreRoots_checked b r.1 _).checked_bind fun _ => (aside_pure _).checked

theorem exploreAll_checked (reports : Keyed String BenchmarkReport) (bs : List Benchmark) :
    e.Obeys e.Checked (e.exploreAll reports bs) := by
  induction bs generalizing reports with
  | nil => exact (aside_pure _).checked
  | cons b rest ih =>
    refine poll_bind (aside_pure _) ((e.exploreBenchmark_heeds b).caught.heeds_bind fun o => ?_)
    rcases o with failure | report
    · dsimp only
      split
      · exact (e.say_aside _).checked.checked_bind fun _ => ih _
      · exact ((e.say_aside _).aside_bind fun _ => aside_pure _).checked
      · exact (aside_throw _).checked
    · dsimp only
      split
      · exact (aside_pure _).checked
      · exact ih _

theorem explore_checked (bs : List Benchmark) : e.Obeys e.Checked (e.explore bs) :=
  (aside_demand _).checked.checked_bind fun _ => aside_get.checked.checked_bind fun _ =>
    (e.exploreAll_checked [] bs).checked_bind fun _ =>
      (aside_get.aside_bind fun _ => aside_pure _).checked

end Explorer

/-- Take any exploration by an explorer that began afresh, whatever it was asked for before, and any run
in it after which every answer is that an abort is requested. No further run is started, unless that
run counted as the one of a parent that was measured again, its child was written out next, and no run
of the child is remembered. Then exactly one further run is started, that of the child. -/
theorem runs_after_abort_request (e : Explorer W) (world : W) (workspace : Workspace)
    (dataset : Option Dataset.Writer) (requests : List Request) (bs : List Benchmark) :
    let s := e.answerAll (Session.fresh world workspace dataset) requests
    ∃ J, ((e.explore bs).on s).2.journal = s.journal ++ J ∧
      ∀ A b c o B, J = A ++ .ran b c o :: B → Pending B →
        (launches B).length ≤ 1 ∧ ∀ key, key ∈ launches B ↔
          ∃ c', e.ChildNext (s.journal ++ A) b c o B c' ∧ (b.name, c'.name) = key := by
  intro s
  have hs : Remembering e s := (Remembering.fresh ..).run (e.answerAll_steps _ requests)
  obtain ⟨-, J, hj, hJ⟩ := e.explore_checked bs s hs
  exact ⟨J, hj, hJ.heeds⟩

end InlineImpact.Exploration
