import InlineImpact.Proofs.Exploration.Step

/-!
What an explorer remembers: exactly the runs that counted. A replay is not run again once it counted.
-/
namespace InlineImpact.Exploration

open Relation (ReflTransGen)
open Journal

variable {W : Type}

/-- A measurement is remembered by the names of benchmark and configuration if and only if a run of
that name counted, and for a replay one such run counted at most. -/
structure Remembering (e : Explorer W) (s : Session W) : Prop where
  sound : ∀ key m, s.measurements.get? key = some m →
    ∃ A b c, CountedAfter A s.journal b c m ∧ (b.name, c.name) = key
  complete : ∀ A b c m, CountedAfter A s.journal b c m →
    s.measurements.get? (b.name, c.name) ≠ none
  once : ∀ A A' b b' c c' m m', CountedAfter A s.journal b c m → CountedAfter A' s.journal b' c' m' →
    (b.name, c.name) = (b'.name, c'.name) → c.name ≠ e.fullModel.name → A = A'

namespace Remembering

variable {e : Explorer W} {p : String → MethodId → Prop} {s t : Session W}

theorem fresh (world : W) (workspace : Workspace) (dataset : Option Dataset.Writer) :
    Remembering e (Session.fresh world workspace dataset) := by
  have hnone {A b c m} : ¬CountedAfter A (Session.fresh world workspace dataset).journal b c m := by
    rintro ⟨run, B, h⟩
    simp [Session.fresh] at h
  exact ⟨fun key m h => by simp [Session.fresh] at h, fun _ _ _ _ h => (hnone h).elim,
    fun _ _ _ _ _ _ _ _ h => (hnone h).elim⟩

/-- Only the journal and what is remembered matter. -/
theorem congr (h : Remembering e s) (hj : t.journal = s.journal) (hm : t.measurements = s.measurements) :
    Remembering e t :=
  ⟨by simpa only [hj, hm] using h.sound, by simpa only [hj, hm] using h.complete,
    by simpa only [hj] using h.once⟩

/-- Events among which no run counts. -/
theorem add {K : List Event} (h : Remembering e s) (hj : t.journal = s.journal ++ K)
    (hm : t.measurements = s.measurements) (hK : ∀ r, K.head? ≠ some (.loaded r))
    (hn : ∀ A b c m, ¬CountedAfter A K b c m) : Remembering e t := by
  have hold {A b c m} (hc : CountedAfter A t.journal b c m) : CountedAfter A s.journal b c m := by
    rw [hj] at hc
    exact (hc.append_cases hK).resolve_right fun ⟨_, _, hc⟩ => hn _ _ _ _ hc
  refine ⟨fun key m hget => ?_, fun A b c m hc => hm ▸ h.complete A b c m (hold hc),
    fun A A' b b' c c' m m' hc hc' => h.once A A' b b' c c' m m' (hold hc) (hold hc')⟩
  rw [hm] at hget
  obtain ⟨A, b, c, hc, hkey⟩ := h.sound key m hget
  exact ⟨A, b, c, hj ▸ hc.append K, hkey⟩

/-- Events among which one run counts, and is remembered. -/
theorem learn {b : Benchmark} {c : Configuration} {m : Measurement} {A K : List Event}
    (h : Remembering e s) (hs : (s.remember b c m).Adds K t) (hK : ∀ r, K.head? ≠ some (.loaded r))
    (hc : CountedAfter A K b c m)
    (hnew : s.measurements.get? (b.name, c.name) = none ∨ c.name = e.fullModel.name)
    (honly : ∀ A' b' c' m', CountedAfter A' K b' c' m' → b' = b ∧ c' = c ∧ A' = A) :
    Remembering e t := by
  have hj : t.journal = s.journal ++ K := hs.journal
  have hm : t.measurements = s.measurements.put (b.name, c.name) m := hs.measurements
  have hsplit {A' b' c' m'} (hc' : CountedAfter A' t.journal b' c' m') :
      CountedAfter A' s.journal b' c' m' ∨ b' = b ∧ c' = c ∧ A' = s.journal ++ A := by
    rw [hj] at hc'
    refine (hc'.append_cases hK).imp_right fun ⟨A'', hA, hc'⟩ => ?_
    obtain ⟨hb', hc', rfl⟩ := honly _ _ _ _ hc'
    exact ⟨hb', hc', hA⟩
  -- a replay that is run now did not count before
  have hfresh {A' b' c' m'} (hc' : CountedAfter A' s.journal b' c' m')
      (hkey : (b'.name, c'.name) = (b.name, c.name)) : c.name = e.fullModel.name :=
    hnew.resolve_left (hkey ▸ h.complete _ _ _ _ hc')
  refine ⟨fun key m' hget => ?_, fun A' b' c' m' hc' => ?_,
    fun A₁ A₂ b₁ b₂ c₁ c₂ m₁ m₂ h₁ h₂ hkey hfull => ?_⟩
  · rw [hm] at hget
    by_cases hkey : key = (b.name, c.name)
    · subst hkey
      obtain rfl : m = m' := by simpa using hget
      exact ⟨s.journal ++ A, b, c, hj ▸ hc.of_append s.journal, rfl⟩
    · rw [Keyed.get?_put_of_ne hkey] at hget
      obtain ⟨A', b', c', hc', hkey'⟩ := h.sound key m' hget
      exact ⟨A', b', c', hj ▸ hc'.append K, hkey'⟩
  · rw [hm]
    by_cases hkey : (b'.name, c'.name) = (b.name, c.name)
    · simp [hkey]
    · rw [Keyed.get?_put_of_ne hkey]
      rcases hsplit hc' with hc' | ⟨rfl, rfl, -⟩
      · exact h.complete A' b' c' m' hc'
      · exact (hkey rfl).elim
  · rcases hsplit h₁ with h₁ | ⟨rfl, rfl, rfl⟩ <;> rcases hsplit h₂ with h₂ | ⟨rfl, rfl, rfl⟩
    · exact h.once _ _ _ _ _ _ _ _ h₁ h₂ hkey hfull
    · exact (hfull ((congrArg Prod.snd hkey).trans (hfresh h₁ hkey))).elim
    · exact (hfull (hfresh h₂ hkey.symm)).elim
    · rfl

theorem measureTree {b : Benchmark} {tree : Tree} (h : Remembering e s) :
    Remembering e ((e.measureTree b tree).on s).2 := by
  have hspec := e.measureTree_spec b tree s
  generalize (e.measureTree b tree).on s = r at hspec
  obtain ⟨o, t⟩ := r
  -- a run that counts comes after the tree was written out
  have hblock : ∀ {c left J o A b' c' m'}, Block b c left J o →
      CountedAfter A (.prepared tree :: J) b' c' m' → b' = b ∧ c' = c ∧ ∃ run, o = .ok (run, m') ∧
        .prepared tree :: J = A ++ [.ran b c (.ok run), .loaded (.ok m')] := by
    intro c left J o A b' c' m' hb hc
    rcases CountedAfter.append_cases (J := [.prepared tree]) hc hb.head?_ne_loaded with hk | ⟨A', rfl, hk⟩
    · exact (not_countedAfter_singleton _ _ _ _ _ hk).elim
    · obtain ⟨hb', hc', run, ho, rfl⟩ := hb.eq_of_countedAfter hk
      exact ⟨hb', hc', run, ho, rfl⟩
  have hwritten {u : Session W} (hs : s.Adds [.prepared tree] u) : Remembering e u :=
    h.add hs.journal hs.measurements (by simp) (not_countedAfter_singleton · _)
  cases hspec with
  | unprepared f => exact h
  | remembered hc hm hs => exact hwritten hs
  | refused hc hr hs => exact hwritten hs
  | failed hc hn hr hb hs =>
    refine h.add hs.journal hs.measurements (by simp) fun A b' c' m' hcount => ?_
    obtain ⟨-, -, run, hf, -⟩ := hblock hb hcount
    cases hf
  | @counted c J run m _ hc hn hr hb hs =>
    obtain ⟨K, rfl⟩ := hb.exists_counted rfl
    refine h.learn (A := .prepared tree :: K) hs (by simp) ⟨run, [], rfl⟩ (.inl hn)
      fun A b' c' m' hcount => ?_
    obtain ⟨hb', hc', run', -, hA⟩ := hblock hb hcount
    have hA : (.prepared tree :: K) ++ [.ran b c (.ok run), .loaded (.ok m)] = A ++ _ := hA
    exact ⟨hb', hc', (List.append_inj' hA rfl).1.symm⟩

theorem fullForest {b : Benchmark} (h : Remembering e s) :
    Remembering e ((e.fullForest b).on s).2 := by
  have hspec := e.fullForest_spec b s
  generalize (e.fullForest b).on s = r at hspec
  obtain ⟨o, t⟩ := r
  cases hspec with
  | refused f hr => exact h
  | failed hb hs =>
    refine h.add hs.journal hs.measurements hb.head?_ne_loaded fun A b' c' m' hcount => ?_
    obtain ⟨-, -, run, hf, -⟩ := hb.eq_of_countedAfter hcount
    cases hf
  | unreported hb hs =>
    obtain ⟨K, rfl⟩ := hb.exists_counted rfl
    refine h.learn hs hb.head?_ne_loaded ⟨_, [], rfl⟩ (.inr rfl)
      fun A b' c' m' hcount => ?_
    obtain ⟨hb', hc', run', -, hA⟩ := hb.eq_of_countedAfter hcount
    exact ⟨hb', hc', (List.append_inj' hA rfl).1.symm⟩
  | @captured J run m f ws _ hb hf hs =>
    obtain ⟨K, hK⟩ := hb.exists_counted rfl
    have hhead : ∀ r, (J ++ [Event.reported f]).head? ≠ some (.loaded r) := by
      obtain ⟨o', rest, rfl⟩ := hb.exists_cons
      simp
    refine h.learn (A := K) hs hhead ⟨run, [.reported f], by simp [hK]⟩ (.inr rfl)
      fun A b' c' m' hcount => ?_
    rcases hcount.append_cases (by simp) with hcount | ⟨A', -, hcount⟩
    · obtain ⟨hb', hc', run', -, hA⟩ := hb.eq_of_countedAfter hcount
      exact ⟨hb', hc', (List.append_inj' (hA.symm.trans hK) rfl).1⟩
    · exact (not_countedAfter_singleton _ _ _ _ _ hcount).elim

theorem emitted {o : Option Estimate} {b : Benchmark} {root : MethodId} {d : Decision}
    (h : Remembering e s) (hj : t.journal = s.journal ++ [.emitted ⟨b.name, root, d, o⟩])
    (hm : t.measurements = s.measurements) : Remembering e t :=
  h.add hj hm (by simp) (not_countedAfter_singleton · _)

theorem quiet (h : Remembering e s) (hs : Quiet e s t) : Remembering e t := by
  cases hs with
  | say text => exact h.congr rfl rfl
  | poll => exact h.add (K := [.polled _]) rfl rfl (by simp) (not_countedAfter_singleton · _)
  | measureTree b tree => exact h.measureTree
  | fullForest b => exact h.fullForest

theorem step (h : Remembering e s) (hs : Step e p s t) : Remembering e t := by
  cases hs with
  | quiet hq => exact h.quiet hq
  | missing b root d =>
    rcases on_emit ⟨b.name, root, d, none⟩ s with ⟨ds, ws, hm⟩ | ⟨f, ds, ws, hm⟩ <;> rw [hm]
    · exact h.emitted rfl rfl
    · exact h.congr rfl rfl
  | measured b root d est =>
    rcases on_emit ⟨b.name, root, d, some est⟩ s with ⟨ds, ws, hm⟩ | ⟨f, ds, ws, hm⟩
    · rw [Explorer.emitMeasured, Exploring.on_bind_ok hm, Exploring.on_markExplored]
      dsimp only
      split <;> exact h.emitted rfl rfl
    · rw [Explorer.emitMeasured, Exploring.on_bind_error hm]
      exact h.congr rfl rfl

theorem run (h : Remembering e s) (hs : ReflTransGen (Step e p) s t) : Remembering e t := by
  induction hs with
  | refl => exact h
  | tail _ hstep ih => exact ih.step hstep

end Remembering

section Recall

variable {e : Explorer W} {p : String → MethodId → Prop} {s t : Session W} {key : String × String}
  {m : Measurement}

/-- What is remembered of a replay stays as it is. -/
theorem Quiet.recalls (h : Quiet e s t) (hkey : key.2 ≠ e.fullModel.name)
    (hm : s.measurements.get? key = some m) : t.measurements.get? key = some m := by
  have hfull {b : Benchmark} {J m' u} (hs : (s.remember b e.fullModel m').Adds J u) :
      u.measurements.get? key = some m := by
    rw [hs.measurements, Session.remember, Keyed.get?_put_of_ne, hm]
    exact fun h => hkey (congrArg Prod.snd h)
  cases h with
  | say text => exact hm
  | poll => exact hm
  | measureTree b tree =>
    have hspec := e.measureTree_spec b tree s
    generalize (e.measureTree b tree).on s = r at hspec
    obtain ⟨o, u⟩ := r
    cases hspec with
    | unprepared f => exact hm
    | remembered hc hg hs => exact hs.measurements ▸ hm
    | refused hc hr hs => exact hs.measurements ▸ hm
    | failed hc hn hr hb hs => exact hs.measurements ▸ hm
    | counted hc hn hr hb hs =>
      rw [hs.measurements, Session.remember, Keyed.get?_put_of_ne, hm]
      rintro rfl
      simp [hn] at hm
  | fullForest b =>
    have hspec := e.fullForest_spec b s
    generalize (e.fullForest b).on s = r at hspec
    obtain ⟨o, u⟩ := r
    cases hspec with
    | refused f hr => exact hm
    | failed hb hs => exact hs.measurements ▸ hm
    | unreported hb hs => exact hfull hs
    | captured hb hf hs => exact hfull hs

theorem Step.recalls (h : Step e p s t) (hkey : key.2 ≠ e.fullModel.name)
    (hm : s.measurements.get? key = some m) : t.measurements.get? key = some m := by
  cases h with
  | quiet hq => exact hq.recalls hkey hm
  | missing b root d =>
    rcases on_emit ⟨b.name, root, d, none⟩ s with ⟨ds, ws, he⟩ | ⟨f, ds, ws, he⟩ <;> rw [he] <;> exact hm
  | measured b root d est =>
    rcases on_emit ⟨b.name, root, d, some est⟩ s with ⟨ds, ws, he⟩ | ⟨f, ds, ws, he⟩
    · rw [Explorer.emitMeasured, Exploring.on_bind_ok he, Exploring.on_markExplored]
      dsimp only
      split <;> exact hm
    · rw [Explorer.emitMeasured, Exploring.on_bind_error he]
      exact hm

theorem Step.run_recalls (h : ReflTransGen (Step e p) s t) (hkey : key.2 ≠ e.fullModel.name)
    (hm : s.measurements.get? key = some m) : t.measurements.get? key = some m := by
  induction h with
  | refl => exact hm
  | tail _ hstep ih => exact hstep.recalls hkey ih

end Recall

end InlineImpact.Exploration
