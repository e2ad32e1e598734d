import InlineImpact.Proofs.Exploration.Regime
import InlineImpact.Proofs.Exploration.Step

/-!
Two explorations side by side. The sessions may differ in what concerns one root of one benchmark, its
enclave; everything else is the same in both. `Abreast` says that two operations keep it so and come to
the same, unless one of them ends its exploration, and has a rule for every way to build an operation.
-/
namespace InlineImpact.Exploration

variable {W α β : Type}

/-- One root of a benchmark: the names of the configurations that replay its trees, and the contexts of its
decisions. -/
structure Enclave where
  benchmark : String
  root : MethodId
  names : String → Prop
  contexts : Decision.Context → Prop

namespace Enclave

variable (E : Enclave)

/-- A run of the benchmark under the configuration replays the root. -/
def Owns (b : Benchmark) (c : Configuration) : Prop := b.name = E.benchmark ∧ E.names c.name

/-- The row belongs to another root. -/
def spares (row : Dataset.Row) : Bool := ¬(row.benchmark = E.benchmark ∧ row.root = E.root)

/-- What is remembered outside of the enclave is the same. -/
def Agree (known known' : Keyed (String × String) Measurement) : Prop :=
  ∀ key : String × String, ¬(key.1 = E.benchmark ∧ E.names key.2) → known.get? key = known'.get? key

/-- The sessions differ in nothing but what concerns the enclave. -/
structure Alike (s t : Session W) : Prop where
  measurements : E.Agree s.measurements t.measurements
  explored : ∀ c, ¬E.contexts c → (c ∈ s.explored ↔ c ∈ t.explored)
  rows : s.rows.filter E.spares = t.rows.filter E.spares

variable {E} {s s' t t' u : Session W} {known known' : Keyed (String × String) Measurement} {b : Benchmark}
  {c : Configuration}

namespace Agree

theorem put (h : E.Agree known known') (key : String × String) (m : Measurement) :
    E.Agree (known.put key m) (known'.put key m) := by
  intro j hj
  rw [Keyed.get?_put, Keyed.get?_put, h j hj]

/-- What is learned about the enclave is of no concern outside. -/
theorem put_of_owns (hown : E.Owns b c) (known : Keyed (String × String) Measurement) (m : Measurement) :
    E.Agree known (known.put (b.name, c.name) m) := by
  intro j hj
  rw [Keyed.get?_put_of_ne]
  rintro rfl
  exact hj hown

variable {p q : Regime}

theorem learn (h : E.Agree known known') (hsame : p.attempt b c = q.attempt b c) :
    E.Agree (p.learn b c known) (q.learn b c known') := by
  unfold Regime.learn
  rw [hsame]
  cases q.attempt b c with
  | error => exact h
  | ok r => exact h.put _ r.2

/-- Outside of the enclave, both sides have a measurement remembered or neither has. -/
theorem measure (h : E.Agree known known') (hout : ¬E.Owns b c) (hsame : p.attempt b c = q.attempt b c) :
    (p.measure b c known).1 = (q.measure b c known').1 ∧
      E.Agree (p.measure b c known).2 (q.measure b c known').2 := by
  have hkey := h (b.name, c.name) hout
  cases hknown : known.get? (b.name, c.name) with
  | some m =>
    rw [Regime.measure_of_known hknown, Regime.measure_of_known (hkey.symm.trans hknown)]
    exact ⟨rfl, h⟩
  | none =>
    rw [Regime.measure_of_unknown hknown, Regime.measure_of_unknown (hkey.symm.trans hknown), hsame]
    exact ⟨rfl, h.learn hsame⟩

end Agree

namespace Alike

theorem refl (s : Session W) : E.Alike s s := ⟨fun _ _ => rfl, fun _ _ => .rfl, rfl⟩

theorem symm (h : E.Alike s t) : E.Alike t s where
  measurements key hkey := (h.measurements key hkey).symm
  explored c hc := (h.explored c hc).symm
  rows := h.rows.symm

theorem trans (h : E.Alike s t) (h' : E.Alike t u) : E.Alike s u where
  measurements key hkey := (h.measurements key hkey).trans (h'.measurements key hkey)
  explored c hc := (h.explored c hc).trans (h'.explored c hc)
  rows := h.rows.trans h'.rows

theorem of_steps (h : Relation.ReflTransGen E.Alike s t) : E.Alike s t := by
  induction h with
  | refl => exact .refl s
  | tail _ hstep ih => exact ih.trans hstep

theorem learns (h : E.Alike s t) (hs : s.Learns known s') (ht : t.Learns known' t')
    (hknown : E.Agree known known') : E.Alike s' t' where
  measurements := by rwa [hs.measurements, ht.measurements]
  explored := by rw [hs.explored, ht.explored]; exact h.explored
  rows := by rw [hs.rows, ht.rows]; exact h.rows

/-- Nothing was learned, so nothing became different. -/
theorem still (h : E.Alike s t) (hs : s.Learns s.measurements s') (ht : t.Learns t.measurements t') :
    E.Alike s' t' :=
  h.learns hs ht h.measurements

theorem contains_eq (h : E.Alike s t) {c : Decision.Context} (hc : ¬E.contexts c) :
    s.explored.contains c = t.explored.contains c := by
  rw [Bool.eq_iff_iff]
  simpa using h.explored c hc

end Alike

/-- The operation ends its exploration, or comes to a result that tells of an abort. -/
def Lost (lost : α → Prop) : Except Failure α → Prop
  | .ok a => lost a
  | .error failure => Terminal failure

/-- Both come to results that match, or to the same failure. -/
inductive Likewise (R : α → α → Prop) : Except Failure α → Except Failure α → Prop where
  | ok {a a' : α} (h : R a a') : Likewise R (.ok a) (.ok a')
  | error (failure : Failure) : Likewise R (.error failure) (.error failure)

/-- From sessions that are alike, the operations come to sessions that are alike, and to the same in the sense
of `R`, unless one of them is lost. -/
def Abreast (E : Enclave) (lost : α → Prop) (R : α → α → Prop) (x y : Exploring W α) : Prop :=
  ∀ s t, E.Alike s t → Lost lost (x.on s).1 ∨ Lost lost (y.on t).1 ∨
    E.Alike (x.on s).2 (y.on t).2 ∧ Likewise R (x.on s).1 (y.on t).1

/-- No result is lost; only a failure can be. -/
def Never (_ : α) : Prop := False

namespace Abreast

variable {lost : β → Prop} {mid : α → Prop} {R : β → β → Prop} {S : α → α → Prop} {x y : Exploring W α}
  {k l : α → Exploring W β}

theorem pure {a a' : β} (h : R a a') : E.Abreast lost R (pure a : Exploring W β) (pure a') :=
  fun _ _ hst => .inr (.inr ⟨hst, .ok h⟩)

theorem throw (failure : Failure) : E.Abreast lost R (throw failure : Exploring W β) (throw failure) :=
  fun _ _ hst => .inr (.inr ⟨hst, .error failure⟩)

theorem mono {R' : β → β → Prop} {z w : Exploring W β} (h : E.Abreast lost R z w)
    (hR : ∀ a a', R a a' → R' a a') : E.Abreast lost R' z w := by
  intro s t hst
  refine (h s t hst).imp_right (Or.imp_right fun ⟨h, hout⟩ => ⟨h, ?_⟩)
  generalize (z.on s).1 = o, (w.on t).1 = o' at hout
  cases hout with
  | ok ha => exact .ok (hR _ _ ha)
  | error failure => exact .error failure

/-- One operation after another. If the first result tells of an abort, so does the last. -/
theorem bind (hx : E.Abreast mid S x y)
    (hk : ∀ a a', S a a' → ¬mid a → ¬mid a' → E.Abreast lost R (k a) (l a'))
    (hlost : ∀ a u, mid a → Lost lost ((k a).on u).1 ∧ Lost lost ((l a).on u).1) :
    E.Abreast lost R (x >>= k) (y >>= l) := by
  intro s t hst
  have h := hx s t hst
  rw [Exploring.on_bind, Exploring.on_bind]
  generalize x.on s = r, y.on t = r' at h ⊢
  obtain ⟨_ | a, s'⟩ := r <;> obtain ⟨_ | a', t'⟩ := r'
  · rcases h with h | h | ⟨h, ⟨⟩⟩
    · exact .inl h
    · exact .inr (.inl h)
    · exact .inr (.inr ⟨h, .error _⟩)
  · rcases h with h | h | ⟨-, ⟨⟩⟩
    · exact .inl h
    · exact .inr (.inl (hlost a' t' h).2)
  · rcases h with h | h | ⟨-, ⟨⟩⟩
    · exact .inl (hlost a s' h).1
    · exact .inr (.inl h)
  · by_cases ha : mid a
    · exact .inl (hlost a s' ha).1
    by_cases ha' : mid a'
    · exact .inr (.inl (hlost a' t' ha').2)
    obtain ⟨hst', hout⟩ := (h.resolve_left ha).resolve_left ha'
    cases hout with
    | ok hS => exact hk a a' hS ha ha' s' t' hst'

/-- One operation after another that tells of no abort. -/
theorem next (hx : E.Abreast Never S x y) (hk : ∀ a a', S a a' → E.Abreast lost R (k a) (l a')) :
    E.Abreast lost R (x >>= k) (y >>= l) :=
  hx.bind (fun a a' h _ _ => hk a a' h) fun _ _ => False.elim

theorem caught_bind {k l : Except Failure α → Exploring W β} (hx : E.Abreast mid S x y)
    (hk : ∀ o o', Likewise S o o' → ¬Lost mid o → ¬Lost mid o' → E.Abreast lost R (k o) (l o'))
    (hlost : ∀ o u, Lost mid o → Lost lost ((k o).on u).1 ∧ Lost lost ((l o).on u).1) :
    E.Abreast lost R (caught x >>= k) (caught y >>= l) := by
  intro s t hst
  rw [Exploring.on_bind_ok (Exploring.on_caught x s), Exploring.on_bind_ok (Exploring.on_caught y t)]
  by_cases ho : Lost mid (x.on s).1
  · exact .inl (hlost _ _ ho).1
  by_cases ho' : Lost mid (y.on t).1
  · exact .inr (.inl (hlost _ _ ho').2)
  obtain ⟨h, hout⟩ := ((hx s t hst).resolve_left ho).resolve_left ho'
  exact hk _ _ hout ho ho' _ _ h

theorem demand_bind {r : Except Failure α} (hk : ∀ a, r = .ok a → E.Abreast lost R (k a) (l a)) :
    E.Abreast lost R (demand r >>= k) (demand r >>= l) := by
  cases r with
  | error failure => exact throw failure
  | ok a => exact hk a rfl

theorem say_bind {text text' : String} {k l : Unit → Exploring W β} (hk : E.Abreast lost R (k ()) (l ())) :
    E.Abreast lost R (say text >>= k) (say text' >>= l) :=
  fun s t hst => hk _ _ (hst.still (s := s) (t := t) ⟨rfl, rfl, rfl⟩ ⟨rfl, rfl, rfl⟩)

/-- Both sides find a context explored, or neither does. -/
theorem isExplored_bind {c : Decision.Context} (hc : ¬E.contexts c) {k l : Bool → Exploring W β}
    (hk : ∀ answer, E.Abreast lost R (k answer) (l answer)) :
    E.Abreast lost R (isExplored c >>= k) (isExplored c >>= l) := by
  intro s t hst
  rw [Exploring.on_bind_ok (Exploring.on_isExplored c s), Exploring.on_bind_ok (Exploring.on_isExplored c t),
    hst.contains_eq hc]
  exact hk _ s t hst

end Abreast

end Enclave

section Elements

open Enclave

variable {E : Enclave}

theorem learns_of_poll (e : Explorer W) (s : Session W) : s.Learns s.measurements (e.poll.on s).2 :=
  .of_adds (J := [.polled _]) ⟨rfl, rfl, rfl⟩ rfl

/-- An exploration goes on only if no abort is requested. -/
theorem poll_abreast (e e' : Explorer W) {lost : β → Prop} {R : β → β → Prop} {k l : Bool → Exploring W β}
    (hk : E.Abreast lost R (k false) (l false))
    (hlost : ∀ u, Lost lost ((k true).on u).1 ∧ Lost lost ((l true).on u).1) :
    E.Abreast lost R (e.poll >>= k) (e'.poll >>= l) := by
  have hpoll : E.Abreast (· = true) (fun a a' => a = false ∧ a' = false) e.poll e'.poll := by
    intro s t hst
    have hst := hst.still (learns_of_poll e s) (learns_of_poll e' t)
    rw [e.on_poll s, e'.on_poll t] at hst ⊢
    dsimp only at hst ⊢
    generalize (e.host.poll s.world).1 = a at hst ⊢
    generalize (e'.host.poll t.world).1 = a' at hst ⊢
    cases a with
    | true => exact .inl rfl
    | false =>
      cases a' with
      | true => exact .inr (.inl rfl)
      | false => exact .inr (.inr ⟨hst, .ok ⟨rfl, rfl⟩⟩)
  refine hpoll.bind ?_ ?_
  · rintro _ _ ⟨rfl, rfl⟩ - -
    exact hk
  · rintro _ u rfl
    exact hlost u

/-- The rows of another root are the same on both sides. -/
theorem emit_abreast (row : Dataset.Row) : E.Abreast Never Eq (emit row : Exploring W Unit) (emit row) := by
  intro s t hst
  have hrows (u : Session W) (ds : Option Dataset.Writer) (ws : Workspace) :
      ({ u with dataset := ds, workspace := ws }.note (.emitted row)).rows = u.rows ++ [row] :=
    rows_of_journal (.emitted row) rfl
  rcases on_emit row s with ⟨ds, ws, h⟩ | ⟨failure, ds, ws, h⟩
  · rcases on_emit row t with ⟨ds', ws', h'⟩ | ⟨failure, ds', ws', h'⟩
    · rw [h, h']
      refine .inr (.inr ⟨⟨hst.measurements, hst.explored, ?_⟩, .ok rfl⟩)
      rw [hrows, hrows, List.filter_append, List.filter_append, hst.rows]
    · exact .inr (.inl (by rw [h']; exact (fatal_of_emit h').terminal))
  · exact .inl (by rw [h]; exact (fatal_of_emit h).terminal)

theorem mem_explored_markExplored {c c' : Decision.Context} (s : Session W) :
    c' ∈ ((markExplored c).on s).2.explored ↔ c' ∈ s.explored ∨ c' = c := by
  rw [Exploring.on_markExplored]
  dsimp only
  split
  · rename_i h
    refine ⟨.inl, fun h' => h'.elim id ?_⟩
    rintro rfl
    simpa using h
  · simp

theorem rows_markExplored (c : Decision.Context) (s : Session W) :
    ((markExplored c).on s).2.rows = s.rows ∧ ((markExplored c).on s).2.measurements = s.measurements := by
  rw [Exploring.on_markExplored]
  dsimp only
  split <;> exact ⟨rfl, rfl⟩

theorem markExplored_abreast (c : Decision.Context) :
    E.Abreast Never Eq (markExplored c : Exploring W Unit) (markExplored c) := by
  intro s t hst
  obtain ⟨hr, hm⟩ := rows_markExplored c s
  obtain ⟨hr', hm'⟩ := rows_markExplored c t
  refine .inr (.inr ⟨⟨?_, fun c' hc' => ?_, ?_⟩, .ok rfl⟩)
  · rw [hm, hm']
    exact hst.measurements
  · rw [mem_explored_markExplored, mem_explored_markExplored, hst.explored c' hc']
  · rw [hr, hr', hst.rows]

end Elements

section Within

open Exploring (Within)

variable {E : Enclave}

/-- What is measured for the enclave stays in it. -/
theorem measureTree_enclosed (e : Explorer W) {b : Benchmark} {t : Tree}
    (hown : ∀ c, Replay.configurationOf t e.settings.resultsDir = .ok c → E.Owns b c) :
    (e.measureTree b t).Within E.Alike := by
  intro s
  have h := e.measureTree_spec b t s
  generalize (e.measureTree b t).on s = r at h ⊢
  obtain ⟨o, u⟩ := r
  have hadds {J : List Event} (hs : s.Adds J u) (hrows : J.filterMap Event.row? = []) : E.Alike s u :=
    (Enclave.Alike.refl s).still ⟨rfl, rfl, rfl⟩ (.of_adds hs hrows)
  refine .single ?_
  cases h with
  | unprepared => exact Enclave.Alike.refl _
  | remembered hc hm hs => exact hadds hs rfl
  | refused hc hr hs => exact hadds hs rfl
  | failed hc hn hr hb hs => exact hadds hs hb.row_free
  | counted hc hn hr hb hs =>
    have hlearns := Session.Learns.of_adds hs hb.row_free
    refine (Enclave.Alike.refl s).learns ⟨rfl, rfl, rfl⟩ ⟨hlearns.measurements, hlearns.explored, hlearns.rows⟩ ?_
    exact .put_of_owns (hown _ hc) _ _

theorem emit_enclosed {row : Dataset.Row} (hrow : E.spares row = false) :
    (emit row : Exploring W Unit).Within E.Alike := by
  intro s
  refine .single ?_
  rcases on_emit row s with ⟨ds, ws, h⟩ | ⟨failure, ds, ws, h⟩ <;> rw [h]
  · have hrows : ({ s with dataset := ds, workspace := ws }.note (.emitted row)).rows = s.rows ++ [row] :=
      rows_of_journal (.emitted row) rfl
    refine ⟨fun _ _ => rfl, fun _ _ => .rfl, ?_⟩
    rw [hrows, List.filter_append, List.filter_singleton, hrow]
    simp
  · exact ⟨fun _ _ => rfl, fun _ _ => .rfl, rfl⟩

theorem markExplored_enclosed {c : Decision.Context} (hc : E.contexts c) :
    (markExplored c : Exploring W Unit).Within E.Alike := by
  intro s
  obtain ⟨hr, hm⟩ := rows_markExplored c s
  refine .single ⟨by rw [hm]; exact fun _ _ => rfl, fun c' hc' => ?_, by rw [hr]⟩
  rw [mem_explored_markExplored]
  refine ⟨.inl, fun h => h.elim id ?_⟩
  rintro rfl
  exact (hc' hc).elim

/-- What is demanded is there for what comes next. -/
theorem demand_within {R : Session W → Session W → Prop} {r : Except Failure α} {k : α → Exploring W β}
    (hk : ∀ a, r = .ok a → (k a).Within R) : (demand r >>= k).Within R := by
  cases r with
  | error failure => exact .of_still fun s => by rw [Exploring.on_bind_error (Exploring.on_demand _ s)]
  | ok a => exact hk a rfl

theorem still_enclosed {x : Exploring W α} (h : ∀ s : Session W, s.Learns s.measurements (x.on s).2) :
    x.Within E.Alike :=
  fun s => .single ((Enclave.Alike.refl s).still ⟨rfl, rfl, rfl⟩ (h s))

end Within

end InlineImpact.Exploration
