import InlineImpact.Proofs.Exploration.Memory
import InlineImpact.Proofs.Forest
import InlineImpact.Proofs.Tree.Growth

/-!
What an exploration keeps to while it works on the forest of one benchmark. Only first parts of the
forest's trees are run, and those of a root that has not been visited are run in the order in which
they grow, apart from the full tree. `Scheduled` says so of a session, and every row with an estimate
is `Paired`: it compares the runs of a tree and of the tree before.
-/
namespace InlineImpact

/-- The tree holds the first decisions of the one that the forest has for its root. -/
def Forest.Offers (f : Forest) (t : Tree) : Prop := ∃ full k, f.tree t.root = .ok full ∧ t = full.upTo k

theorem Forest.Offers.eq_of_size {f : Forest} {t t' : Tree} (h : f.Offers t) (h' : f.Offers t')
    (hr : t.root = t'.root) (hs : t.size = t'.size) : t = t' := by
  obtain ⟨full, k, hf, rfl⟩ := h
  obtain ⟨full', k', hf', rfl⟩ := h'
  rw [hr] at hf
  obtain rfl := Except.ok.inj (hf.symm.trans hf')
  rw [Tree.size_upTo, Tree.size_upTo] at hs
  have htake : full.decisions.take k = full.decisions.take k' := List.take_eq_take_iff.2 hs
  simp [Tree.upTo, htake]

namespace Exploration

open Relation (ReflTransGen)
open Journal

variable {W α β : Type}

/-- The other benchmarks have names of their own, after one more was explored. -/
theorem forall_name_not_mem_cons {b : Benchmark} {rest : List Benchmark} {done : List String}
    (hname : b.name ∉ rest.map (·.name)) (hrest : ∀ b' ∈ rest, b'.name ∉ done) :
    ∀ b' ∈ rest, b'.name ∉ b.name :: done := by
  intro b' hb' hmem
  rcases List.mem_cons.1 hmem with heq | hmem
  · exact hname (List.mem_map.2 ⟨b', hb', heq⟩)
  · exact hrest b' hb' hmem

/-- From the session the operation ends in `post`, or it fails and ends in `fail`. -/
structure Exploring.Ends (x : Exploring W α) (s : Session W) (post : α → Session W → Prop)
    (fail : Session W → Prop) : Prop where
  ok : ∀ a t, x.on s = (.ok a, t) → post a t
  error : ∀ f t, x.on s = (.error f, t) → fail t

section Assertions

variable (e : Explorer W)

/-- The measurement was taken, after the events `A`, by a run of the benchmark that replayed the tree. -/
def Explorer.TakenAfter (A J : List Event) (b : Benchmark) (t : Tree) (m : Measurement) : Prop :=
  replayed A = some t ∧
    ∃ c, Replay.configurationOf t e.settings.resultsDir = .ok c ∧ CountedAfter A J b c m

/-- The forest was reported by a run of the benchmark under the full model. -/
def Explorer.Reported (J : List Event) (b : Benchmark) (f : Forest) : Prop :=
  ∃ A run m B, J = A ++ .ran b e.fullModel (.ok run) :: .loaded (.ok m) :: .reported f :: B

/-- Trees that were written out under one name have one written form. -/
def Journal.NoClash (J : List Event) : Prop :=
  ∀ t t', .prepared t ∈ J → .prepared t' ∈ J → Replay.name t = Replay.name t' →
    Replay.content t = Replay.content t'

/-- Behind an estimate for a row, which is handed out after the events `J`, there is a decision of a
tree that the benchmark's forest has for the row's root, the measurement of the tree up to and with the
decision, and that of its proper parent, the tree up to the decision. The parent was measured before
any run of the child was started, unless the child is the full tree. -/
def Explorer.Paired (bs : List Benchmark) (J : List Event) (row : Dataset.Row) (est : Estimate) : Prop :=
  ∃ b f full i parentRun childRun P C, b ∈ bs ∧ b.name = row.benchmark ∧ e.Reported J b f ∧
    f.tree row.root = .ok full ∧ full.decisions[i]? = some row.decision ∧
    (full.upTo i).isProperParentOf (full.upTo (i + 1)) ∧ (full.upTo i).isSubtreeOf full ∧
    (full.upTo (i + 1)).isSubtreeOf full ∧ e.TakenAfter P J b (full.upTo i) parentRun ∧
    e.TakenAfter C J b (full.upTo (i + 1)) childRun ∧
    e.estimate f row.root row.decision childRun parentRun = .ok est ∧
    (full.upTo (i + 1) = full ∨ ∀ A c o B, J = A ++ .ran b c o :: B →
      replayed A = some (full.upTo (i + 1)) →
      Replay.configurationOf (full.upTo (i + 1)) e.settings.resultsDir = .ok c →
      e.TakenAfter P A b (full.upTo i) parentRun)

/-- Every row with an estimate is paired. -/
def Explorer.AllPaired (bs : List Benchmark) (J : List Event) : Prop :=
  ∀ A row est B, J = A ++ .emitted row :: B → row.estimate = some est → NoClash A →
    e.Paired bs A row est

/-- A run was one of a benchmark that is done, one of the full model, or one that replayed a tree of
the forest whose root and size are as `Q` says. -/
def Explorer.Launched (done : List String) (b : Benchmark) (f : Forest) (Q : MethodId → Nat → Prop)
    (J : List Event) : Prop :=
  ∀ A b' c o B, J = A ++ .ran b' c o :: B → b'.name ∈ done ∨ b' = b ∧ (c = e.fullModel ∨
    ∃ t, replayed A = some t ∧ Replay.configurationOf t e.settings.resultsDir = .ok c ∧ f.Offers t ∧
      Q t.root t.size)

/-- The tree is one that the forest of a benchmark with one of the names offers. -/
def Explorer.Offered (names : List String) (J : List Event) (t : Tree) : Prop :=
  ∃ b f, b.name ∈ names ∧ e.Reported J b f ∧ f.Offers t

/-- The invariant of the exploration of a forest. -/
structure Scheduled (bs : List Benchmark) (done : List String) (b : Benchmark) (f : Forest)
    (Q : MethodId → Nat → Prop) (s : Session W) : Prop where
  remembering : Remembering e s
  paired : e.AllPaired bs s.journal
  launched : e.Launched done b f Q s.journal
  reported : e.Reported s.journal b f
  prepared : ∀ t, .prepared t ∈ s.journal → f.Offers t ∨ e.Offered done s.journal t

/-- The tree was written out, and the measurement is what is remembered for it. -/
def Session.Knows (s : Session W) (b : Benchmark) (t : Tree) (m : Measurement) : Prop :=
  .prepared t ∈ s.journal ∧ ∃ c, Replay.configurationOf t e.settings.resultsDir = .ok c ∧
    s.measurements.get? (b.name, c.name) = some m

end Assertions

namespace Exploring.Ends

variable {x : Exploring W α} {k : α → Exploring W β} {s t : Session W}
  {post mid : α → Session W → Prop} {post' : β → Session W → Prop} {fail fail' : Session W → Prop}

theorem yields (h : x.Ends s post fail) : x.Yields s post fun _ => fail := ⟨h.ok, h.error⟩

theorem of_yields (h : x.Yields s post fun _ => fail) : x.Ends s post fail := ⟨h.ok, h.error⟩

theorem of_ok {a : α} (hx : x.on s = (.ok a, t)) (h : post a t) : x.Ends s post fail :=
  of_yields (.of_ok hx h)

theorem of_error {f : Failure} (hx : x.on s = (.error f, t)) (h : fail t) : x.Ends s post fail :=
  of_yields (.of_error hx h)

theorem of_on {y : Exploring W α} (hx : x.on s = y.on t) (hy : y.Ends t post fail) : x.Ends s post fail :=
  of_yields (.of_on hx hy.yields)

theorem lands {a : α} (hx : x.Ends s post fun _ => True) (h : x.on s = (.ok a, t)) : post a t := hx.ok a t h

theorem pure {a : α} (h : post a s) : (pure a : Exploring W α).Ends s post fail := of_ok (on_pure a s) h

theorem throw {f : Failure} (h : fail s) : (throw f : Exploring W α).Ends s post fail := of_error (on_throw f s) h

theorem bind (hx : x.Ends s mid fail)
    (hk : ∀ a t, x.on s = (.ok a, t) → mid a t → (k a).Ends t post' fail) :
    (x >>= k).Ends s post' fail := by
  have hrecalled := hx.yields.traced.mono_error fun _ _ h => h.2
  exact of_yields (hrecalled.bind fun a t h => (hk a t h.1 h.2).yields)

/-- The operation before comes to a result for sure. -/
theorem after {a : α} (hx : x.on s = (.ok a, t)) (hk : (k a).Ends t post' fail) :
    (x >>= k).Ends s post' fail :=
  of_yields (.after hx hk.yields)

theorem demand_bind {r : Except Failure α} (hk : ∀ a, r = .ok a → (k a).Ends s post' fail)
    (hf : fail s) : (demand r >>= k).Ends s post' fail :=
  of_yields (.demand_bind (fun _ _ => hf) fun a h => (hk a h).yields)

theorem mono (hx : x.Ends s mid fail) (h : ∀ a t, x.on s = (.ok a, t) → mid a t → post a t)
    (hf : ∀ f t, x.on s = (.error f, t) → fail t → fail' t) : x.Ends s post fail' :=
  of_yields (hx.yields.traced.mono (fun a t ho => h a t ho.1 ho.2) fun f t ho => hf f t ho.1 ho.2)

/-- A failure that is caught is no failure. -/
theorem caught_bind {k : Except Failure α → Exploring W β} (hx : x.Ends s mid fail)
    (hk : ∀ a t, x.on s = (.ok a, t) → mid a t → (k (.ok a)).Ends t post' fail')
    (hf : ∀ f t, x.on s = (.error f, t) → fail t → (k (.error f)).Ends t post' fail') :
    (caught x >>= k).Ends s post' fail' :=
  of_yields (hx.yields.traced.caught_bind (fun a t h => (hk a t h.1 h.2).yields)
    fun f t h => (hf f t h.1 h.2).yields)

end Exploring.Ends

section Growth

variable {e : Explorer W} {bs : List Benchmark} {done : List String} {b : Benchmark} {f : Forest}
  {Q Q' : MethodId → Nat → Prop} {p : String → MethodId → Prop} {J K : List Event} {s u : Session W}
  {t : Tree} {m : Measurement}

theorem noClash_of_append (h : NoClash (J ++ K)) : NoClash J :=
  fun t t' ht ht' => h t t' (List.mem_append_left _ ht) (List.mem_append_left _ ht')

theorem takenAfter_append {A : List Event} (h : e.TakenAfter A J b t m) (K : List Event) :
    e.TakenAfter A (J ++ K) b t m := by
  obtain ⟨ht, c, hc, hcount⟩ := h
  exact ⟨ht, c, hc, hcount.append K⟩

theorem reported_append (h : e.Reported J b f) (K : List Event) : e.Reported (J ++ K) b f := by
  obtain ⟨A, run, m, B, rfl⟩ := h
  exact ⟨A, run, m, B ++ K, by simp⟩

theorem offered_append {names : List String} (h : e.Offered names J t) (K : List Event) :
    e.Offered names (J ++ K) t := by
  obtain ⟨b, f, hb, hf, ht⟩ := h
  exact ⟨b, f, hb, reported_append hf K, ht⟩

/-- Events without a row. -/
theorem allPaired_append (h : e.AllPaired bs J) (hK : K.filterMap Event.row? = []) :
    e.AllPaired bs (J ++ K) := by
  intro A row est B hsplit hest hn
  rcases split_append hsplit with ⟨A', -, hA⟩ | ⟨J', hJ, -⟩
  · have := List.filterMap_eq_nil_iff.1 hK (.emitted row) (by simp [hA])
    cases this
  · exact h A row est J' hJ hest hn

theorem allPaired_emitted {row : Dataset.Row} (h : e.AllPaired bs J)
    (hrow : ∀ est, row.estimate = some est → NoClash J → e.Paired bs J row est) :
    e.AllPaired bs (J ++ [.emitted row]) := by
  intro A row' est B hsplit hest hn
  rcases split_append hsplit with ⟨A', rfl, hA⟩ | ⟨J', hJ, -⟩
  · rcases A' with _ | ⟨ev, A'⟩ <;> simp at hA
    obtain ⟨rfl, -⟩ := hA
    simpa using hrow est hest (by simpa using hn)
  · exact h A row' est J' hJ hest hn

theorem launched_append (h : e.Launched done b f Q J) (hK : ∀ A b' c o B, K = A ++ .ran b' c o :: B →
      b' = b ∧ ∃ t, replayed (J ++ A) = some t ∧
        Replay.configurationOf t e.settings.resultsDir = .ok c ∧ f.Offers t ∧ Q t.root t.size) :
    e.Launched done b f Q (J ++ K) := by
  intro A b' c o B hsplit
  rcases split_append hsplit with ⟨A', rfl, hA⟩ | ⟨J', hJ, -⟩
  · obtain ⟨hb, ht⟩ := hK A' b' c o B hA
    exact .inr ⟨hb, .inr ht⟩
  · exact h A b' c o J' hJ

theorem launched_mono (h : e.Launched done b f Q J) (hQ : ∀ r k, Q r k → Q' r k) :
    e.Launched done b f Q' J := by
  intro A b' c o B hsplit
  rcases h A b' c o B hsplit with h | ⟨hb, h | ⟨t, ht, hc, hf, hq⟩⟩
  · exact .inl h
  · exact .inr ⟨hb, .inl h⟩
  · exact .inr ⟨hb, .inr ⟨t, ht, hc, hf, hQ _ _ hq⟩⟩

namespace Scheduled

theorem mono (h : Scheduled e bs done b f Q s) (hQ : ∀ r k, Q r k → Q' r k) :
    Scheduled e bs done b f Q' s :=
  ⟨h.remembering, h.paired, launched_mono h.launched hQ, h.reported, h.prepared⟩

theorem prepared_append (h : Scheduled e bs done b f Q s) (hK : ∀ t, .prepared t ∈ K → f.Offers t) :
    ∀ t, .prepared t ∈ s.journal ++ K → f.Offers t ∨ e.Offered done (s.journal ++ K) t := by
  intro t ht
  rcases List.mem_append.1 ht with ht | ht
  · exact (h.prepared t ht).imp_right (offered_append · K)
  · exact .inl (hK t ht)

/-- Events that belong to the exploration of the forest, and hand out no row. -/
theorem add (h : Scheduled e bs done b f Q s) (hj : u.journal = s.journal ++ K)
    (hr : Remembering e u) (hrow : K.filterMap Event.row? = [])
    (hK : ∀ A b' c o B, K = A ++ .ran b' c o :: B →
      b' = b ∧ ∃ t, replayed (s.journal ++ A) = some t ∧
        Replay.configurationOf t e.settings.resultsDir = .ok c ∧ f.Offers t ∧ Q t.root t.size)
    (hprepared : ∀ t, .prepared t ∈ K → f.Offers t) : Scheduled e bs done b f Q u :=
  ⟨hr, hj ▸ allPaired_append h.paired hrow, hj ▸ launched_append h.launched hK,
    hj ▸ reported_append h.reported K, hj ▸ h.prepared_append hprepared⟩

theorem say (h : Scheduled e bs done b f Q s) (text : String) {fail : Session W → Prop} :
    (say text).Ends s (fun _ t => Scheduled e bs done b f Q t) fail :=
  .of_ok (Exploring.on_say text s)
    ⟨h.remembering.quiet (.say s text), h.paired, h.launched, h.reported, h.prepared⟩

theorem poll (h : Scheduled e bs done b f Q s) {fail : Session W → Prop} :
    e.poll.Ends s (fun _ t => Scheduled e bs done b f Q t) fail :=
  .of_ok (e.on_poll s) (h.add (K := [.polled _]) rfl (h.remembering.quiet (.poll s)) rfl
    (fun A b' c o B hA => by rcases A with _ | ⟨ev, A⟩ <;> simp at hA) (by simp))

/-- Measuring a tree that is due. -/
theorem measureTree (h : Scheduled e bs done b f Q s) (ht : f.Offers t) (hQ : Q t.root t.size) :
    (e.measureTree b t).Ends s (fun m u => Scheduled e bs done b f Q u ∧ u.Knows e b t m)
      (Scheduled e bs done b f Q) := by
  have hrem : Remembering e ((e.measureTree b t).on s).2 := h.remembering.measureTree
  have hspec := e.measureTree_spec b t s
  rcases ho : (e.measureTree b t).on s with ⟨o, u⟩
  rw [ho] at hspec hrem
  have hwritten (hj : u.journal = s.journal ++ [.prepared t]) : Scheduled e bs done b f Q u := by
    refine h.add hj hrem rfl (fun A b' c o B hA => ?_) fun t' ht' => ?_
    · rcases A with _ | ⟨ev, A⟩ <;> simp at hA
    · obtain rfl : t' = t := by simpa using ht'
      exact ht
  have hblock : ∀ {c J o}, Replay.configurationOf t e.settings.resultsDir = .ok c →
      Block b c e.settings.maxRetries.toNat J o → u.journal = s.journal ++ .prepared t :: J →
      Scheduled e bs done b f Q u := by
    intro c J o hc hb hj
    refine h.add hj hrem (by simpa [Event.row?] using hb.row_free) (fun A b' c' o' B hA => ?_)
      fun t' ht' => ?_
    · rcases A with _ | ⟨ev, A⟩ <;> simp at hA
      obtain ⟨rfl, rfl⟩ := hA
      have hran := hb.mem_cases (List.mem_append_right A List.mem_cons_self)
      obtain ⟨rfl, rfl⟩ : b' = b ∧ c' = c := by simpa using hran
      exact ⟨rfl, t, hb.replayed_eq s.journal t, hc, ht, hQ⟩
    · rcases List.mem_cons.1 ht' with heq | hmem
      · exact Event.prepared.inj heq ▸ ht
      · simpa using hb.mem_cases hmem
  cases hspec with
  | unprepared fault => exact .of_error ho h
  | remembered hc hm hs =>
    have hj : u.journal = s.journal ++ [.prepared t] := hs.journal
    exact .of_ok ho ⟨hwritten hj, by simp [hj], _, hc, hs.measurements ▸ hm⟩
  | refused hc hr hs => exact .of_error ho (hwritten hs.journal)
  | failed hc hn hr hb hs => exact .of_error ho (hblock hc hb hs.journal)
  | @counted c J run m _ hc hn hr hb hs =>
    have hj : u.journal = s.journal ++ .prepared t :: J := hs.journal
    have hm : u.measurements = s.measurements.put (b.name, c.name) m := hs.measurements
    exact .of_ok ho ⟨hblock hc hb hj, by simp [hj], c, hc, by simp [hm]⟩

end Scheduled

theorem Session.Knows.later (h : s.Knows e b t m) (hs : ReflTransGen (Step e p) s u) :
    u.Knows e b t m := by
  obtain ⟨ht, c, hc, hm⟩ := h
  refine ⟨(Step.run_journal_le hs).subset ht, c, hc, Step.run_recalls hs (fun hfull => ?_) hm⟩
  exact Replay.name_ne_full ((Replay.name_of_configurationOf hc).trans (congrArg Except.ok hfull))

theorem Session.Knows.still (h : s.Knows e b t m) (hs : ReflTransGen (Quiet e) s u) : u.Knows e b t m :=
  h.later (p := fun _ _ => True) (Quiet.run_steps hs)

/-- Trees that the forest offers are known by the names of their configurations. -/
theorem eq_of_name {t t' : Tree} {c c' : Configuration} (hn : NoClash J) (ht : .prepared t ∈ J)
    (ht' : .prepared t' ∈ J) (hf : f.Offers t) (hf' : f.Offers t')
    (hc : Replay.configurationOf t e.settings.resultsDir = .ok c)
    (hc' : Replay.configurationOf t' e.settings.resultsDir = .ok c') (hname : c.name = c'.name) : t = t' := by
  have hcontent := hn t t' ht ht' (by
    rw [Replay.name_of_configurationOf hc, Replay.name_of_configurationOf hc', hname])
  obtain ⟨text, htext, -⟩ := Replay.exists_content_of_name (Replay.name_of_configurationOf hc)
  obtain ⟨hroot, hsize⟩ := Replay.root_and_size_eq_of_content_eq htext (hcontent ▸ htext)
  exact hf.eq_of_size hf' hroot hsize

/-- What is known of a tree that the forest offers was measured while that tree was replayed. -/
theorem Scheduled.exists_takenAfter (h : Scheduled e bs done b f Q s) (hb : b.name ∉ done)
    (hk : s.Knows e b t m) (ht : f.Offers t) (hn : NoClash s.journal) :
    ∃ A, e.TakenAfter A s.journal b t m := by
  obtain ⟨hprepared, c, hc, hm⟩ := hk
  obtain ⟨A, b', c', hcount, hkey⟩ := h.remembering.sound _ _ hm
  obtain ⟨hbn, hcn⟩ : b'.name = b.name ∧ c'.name = c.name := by simpa using hkey
  obtain ⟨run, B, hsplit⟩ := hcount
  have hname := Replay.name_of_configurationOf hc
  rcases h.launched A b' c' _ _ hsplit with hdone | ⟨rfl, rfl | ⟨t', hr, hc', ht', -⟩⟩
  · exact (hb (hbn ▸ hdone)).elim
  · exact (Replay.name_ne_full (hname.trans (congrArg Except.ok hcn.symm))).elim
  · have hprepared' : .prepared t' ∈ s.journal := by
      rw [hsplit]
      exact List.mem_append_left _ (mem_of_replayed hr)
    obtain rfl := eq_of_name hn hprepared hprepared' ht ht' hc hc' hcn.symm
    exact ⟨A, hr, c', hc', run, B, hsplit⟩

end Growth

end Exploration

end InlineImpact
