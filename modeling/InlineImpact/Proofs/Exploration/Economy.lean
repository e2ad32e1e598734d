import InlineImpact.Proofs.Exploration.Abort
import InlineImpact.Proofs.Exploration.Course
import InlineImpact.Proofs.Exploration.Total

/-!
No run of an exploration is redundant. What is measured once is remembered, and what failed is not tried
again, since its root is left: so the runs of one benchmark under one configuration are a single block of
attempts. `Economical.step` is the invariant of the course; a new block is allowed because every run of
the root at hand has counted so far.
-/
namespace InlineImpact.Exploration

open Relation (ReflTransGen)
open Journal

variable {W : Type}

/-- The runs of each key are one block of attempts, and none is started once one of them counted. -/
structure Journal.Frugal (limit : Nat) (J : List Event) : Prop where
  block : ∀ key, ∃ A n B, launches J = A ++ List.replicate n key ++ B ∧ n ≤ limit ∧ key ∉ A ∧ key ∉ B
  settled : ∀ A b c m run B, J = A ++ .ran b c (.ok run) :: .loaded (.ok m) :: B →
    (b.name, c.name) ∉ launches B

section Journals

variable {limit : Nat} {J K : List Event} {b : Benchmark} {c : Configuration}

theorem mem_launches {key : String × String} :
    key ∈ launches J ↔ ∃ b c o, .ran b c o ∈ J ∧ (b.name, c.name) = key := by
  rw [launches, List.mem_filterMap]
  constructor
  · rintro ⟨ev, hev, hkey⟩
    cases ev with
    | ran b c o => exact ⟨b, c, o, hev, Option.some.inj hkey⟩
    | _ => cases hkey
  · rintro ⟨b, c, o, hev, rfl⟩
    exact ⟨_, hev, rfl⟩

/-- The runs of a block all have its name. -/
theorem Block.launches_eq {left : Nat} {o : Except Failure (CompletedRun × Measurement)}
    (h : Block b c left K o) : ∃ n, n ≤ left + 1 ∧ launches K = List.replicate n (b.name, c.name) := by
  have hone {K o} (h : Attempt b c K o) : launches K = [(b.name, c.name)] := by
    cases h <;> rfl
  induction h with
  | last h => exact ⟨1, by omega, hone h⟩
  | aborted h => exact ⟨1, by omega, by rw [launches_append, hone h]; rfl⟩
  | again h h' ih =>
    obtain ⟨n, hn, hK⟩ := ih
    refine ⟨n + 1, by omega, ?_⟩
    rw [launches_append, hone h, List.replicate_succ, ← hK]
    rfl

namespace Journal.Frugal

theorem nil : Frugal limit [] :=
  ⟨fun key => ⟨[], 0, [], rfl, Nat.zero_le _, by simp, by simp⟩, fun A b c m run B h => by simp at h⟩

/-- A run that counted stands in the second stretch, or in the first with the reading of its capture. -/
theorem split_counted {A B : List Event} {m : Measurement} {run : CompletedRun}
    (hK : ∀ r, K.head? ≠ some (.loaded r)) (h : J ++ K = A ++ .ran b c (.ok run) :: .loaded (.ok m) :: B) :
    (∃ A', K = A' ++ .ran b c (.ok run) :: .loaded (.ok m) :: B) ∨
      ∃ B', J = A ++ .ran b c (.ok run) :: .loaded (.ok m) :: B' ∧ B = B' ++ K := by
  rcases split_append h with ⟨A', -, hA⟩ | ⟨J', hJ, hB⟩
  · exact .inl ⟨A', hA⟩
  · rcases J' with _ | ⟨ev, J'⟩
    · exact (hK (.ok m) (by rw [← List.nil_append K, ← hB]; rfl)).elim
    · obtain ⟨rfl, rfl⟩ : .loaded (.ok m) = ev ∧ B = J' ++ K := by simpa using hB
      exact .inr ⟨J', hJ, rfl⟩

/-- Events without a run. -/
theorem append_aside (h : Frugal limit J) (hlaunch : launches K = [])
    (hK : ∀ r, K.head? ≠ some (.loaded r)) : Frugal limit (J ++ K) := by
  constructor
  · rw [launches_append, hlaunch, List.append_nil]
    exact h.block
  · intro A b c m run B hsplit
    rcases split_counted hK hsplit with ⟨A', rfl⟩ | ⟨B', hJ, rfl⟩
    · simp [launches, Event.launch?] at hlaunch
    · rw [launches_append, hlaunch, List.append_nil]
      exact h.settled _ _ _ _ _ _ hJ

/-- A block of a key that has no runs yet. -/
theorem append_block {left : Nat} {o : Except Failure (CompletedRun × Measurement)} (h : Frugal limit J)
    (hb : Block b c left K o) (hleft : left < limit) (hnew : (b.name, c.name) ∉ launches J) :
    Frugal limit (J ++ K) := by
  obtain ⟨n, hn, hlaunch⟩ := hb.launches_eq
  constructor
  · intro key
    rw [launches_append, hlaunch]
    by_cases hkey : key = (b.name, c.name)
    · subst hkey
      exact ⟨_, n, [], by rw [List.append_nil], by omega, hnew, by simp⟩
    · obtain ⟨A, n', B, hJ, hn', hA, hB⟩ := h.block key
      refine ⟨A, n', B ++ List.replicate n (b.name, c.name), by rw [hJ, List.append_assoc], hn', hA, ?_⟩
      rw [List.mem_append, not_or]
      exact ⟨hB, fun hmem => hkey (List.eq_of_mem_replicate hmem)⟩
  · intro A b' c' m run B hsplit
    rcases split_counted hb.head?_ne_loaded hsplit with ⟨A', hA⟩ | ⟨B', hJ, rfl⟩
    · obtain ⟨-, -, run', -, hK⟩ := hb.eq_of_countedAfter ⟨run, B, hA⟩
      obtain ⟨-, rfl⟩ : (b' = b ∧ c' = c ∧ run = run') ∧ B = [] := by
        simpa using List.append_cancel_left (hA.symm.trans hK)
      simp [launches]
    · rw [launches_append, List.mem_append, not_or, hlaunch]
      refine ⟨h.settled _ _ _ _ _ _ hJ, fun hmem => hnew ?_⟩
      rw [← List.eq_of_mem_replicate hmem]
      exact mem_launches.2 ⟨b', c', .ok run, by simp [hJ], rfl⟩

/-- Of two runs of one key, only one counted. -/
theorem eq_of_counted {A A' : List Event} {b' : Benchmark} {c' : Configuration} {m m' : Measurement}
    (h : Frugal limit J) (hm : CountedAfter A J b c m) (hm' : CountedAfter A' J b' c' m')
    (hkey : (b.name, c.name) = (b'.name, c'.name)) : m = m' := by
  obtain ⟨run, B, hJ⟩ := hm
  obtain ⟨run', B', hJ'⟩ := hm'
  have hB := h.settled _ _ _ _ _ _ hJ
  have hB' := h.settled _ _ _ _ _ _ hJ'
  have hsplit : A ++ [.ran b c (.ok run)] ++ .loaded (.ok m) :: B =
      A' ++ .ran b' c' (.ok run') :: .loaded (.ok m') :: B' := by
    rw [← hJ', hJ, List.append_assoc]
    rfl
  rcases split_append hsplit with ⟨_ | ⟨ev, A''⟩, -, hA⟩ | ⟨_ | ⟨ev, J'⟩, hA, hB''⟩
  · simp at hA
  · -- the second run comes later
    obtain ⟨-, rfl⟩ := List.cons_eq_cons.1 hA
    exact (hB (mem_launches.2 ⟨b', c', .ok run', by simp, hkey.symm⟩)).elim
  · simpa using (List.cons_eq_cons.1 hB'').1.symm
  · -- the first run comes later
    obtain ⟨rfl, rfl⟩ : .loaded (.ok m') = ev ∧ B' = J' ++ .loaded (.ok m) :: B := by simpa using hB''
    have hmem : .ran b c (.ok run) ∈ J' := by
      rcases J'.eq_nil_or_concat' with rfl | ⟨J'', ev, rfl⟩
      · have hlast := congrArg List.getLast? hA
        simp at hlast
      · have hlast : A ++ [.ran b c (.ok run)] =
            (A' ++ .ran b' c' (.ok run') :: .loaded (.ok m') :: J'') ++ [ev] := by simpa using hA
        rw [List.singleton_inj.1 (List.append_inj' hlast rfl).2]
        exact List.mem_append_right _ (.head _)
    exact (hB' (mem_launches.2 ⟨b, c, .ok run, List.mem_append_left _ hmem, hkey⟩)).elim

end Journal.Frugal

end Journals

section Assertions

variable (e : Explorer W)

/-- Apart from the full model, the benchmark was run for trees that its forest offers, or not at all. -/
def Explorer.Charted (J : List Event) (b : Benchmark) : Prop :=
  (∀ c o, .ran b c o ∈ J → c = e.fullModel) ∨ ∃ f, e.Reported J b f ∧ ∀ A c o B,
    J = A ++ .ran b c o :: B → c = e.fullModel ∨
      ∃ t, replayed A = some t ∧ Replay.configurationOf t e.settings.resultsDir = .ok c ∧ f.Offers t

/-- What was run so far for trees of the root is remembered. -/
def Explorer.Kept (s : Session W) (b : Benchmark) (root : MethodId) : Prop :=
  ∀ A c o B t, s.journal = A ++ .ran b c o :: B → replayed A = some t →
    Replay.configurationOf t e.settings.resultsDir = .ok c → t.root = root →
      s.measurements.get? (b.name, c.name) ≠ none

/-- The benchmark was run under the configuration, other than the full model, for a tree of the root. -/
def Explorer.RanFor (J : List Event) (b : Benchmark) (root : MethodId) (c : Configuration) : Prop :=
  ∃ A o B t, J = A ++ .ran b c o :: B ∧ c ≠ e.fullModel ∧ replayed A = some t ∧ t.root = root

def Phase.done : Phase → List String
  | .between done | .visiting done .. | .growing done .. => done

/-- The session fits the phase: no benchmark was run but those that are done and the one at hand, and no
root but those that were visited and the one at hand. -/
def Phase.Fits : Phase → Session W → Prop
  | .between done, s => ∀ b c o, .ran b c o ∈ s.journal → b.name ∈ done
  | .visiting done b f visited, s =>
    b.name ∉ done ∧ e.Reported s.journal b f ∧ e.Launched done b f (Among visited) s.journal
  | .growing done b f visited full, s =>
    (b.name ∉ done ∧ e.Reported s.journal b f ∧ e.Launched done b f (Among (full.root :: visited)) s.journal) ∧
      f.tree full.root = .ok full ∧ e.Kept s b full.root

/-- The invariant of the course of an exploration. -/
structure Economical (P : Phase) (s : Session W) : Prop where
  remembering : Remembering e s
  frugal : NoClash s.journal → Frugal (e.settings.maxRetries.toNat + 1) s.journal
  charted : ∀ b c o, .ran b c o ∈ s.journal → b.name ∈ P.done → e.Charted s.journal b
  fits : P.Fits e s

end Assertions

section Invariant

variable {e : Explorer W} {P Q : Phase} {s t : Session W} {done : List String} {b : Benchmark} {f : Forest}
  {visited : List MethodId} {full : Tree} {J K : List Event} {c : Configuration} {k : Nat}

theorem Explorer.Charted.append (h : e.Charted J b) (hK : ∀ c o, .ran b c o ∉ K) : e.Charted (J ++ K) b := by
  rcases h with hfull | ⟨f, hf, hoffers⟩
  · exact .inl fun c o hmem => hfull c o ((List.mem_append.1 hmem).resolve_right (hK c o))
  · refine .inr ⟨f, reported_append hf K, fun A c o B hsplit => ?_⟩
    rcases split_append hsplit with ⟨A', -, hA⟩ | ⟨J', hJ, -⟩
    · exact (hK c o (hA ▸ by simp)).elim
    · exact hoffers A c o J' hJ

/-- More events at the root at hand. -/
theorem Phase.Fits.visit (h : (Phase.visiting done b f visited).Fits e s) (hj : t.journal = s.journal ++ K)
    (hK : ∀ A b' c o B, K = A ++ .ran b' c o :: B → b' = b ∧ ∃ tree, replayed (s.journal ++ A) = some tree ∧
      Replay.configurationOf tree e.settings.resultsDir = .ok c ∧ f.Offers tree ∧ tree.root ∈ visited) :
    (Phase.visiting done b f visited).Fits e t := by
  obtain ⟨hdone, hreported, hlaunched⟩ := h
  exact ⟨hdone, hj ▸ reported_append hreported K, hj ▸ launched_append hlaunched hK⟩

theorem Explorer.Kept.append {root : MethodId} (h : e.Kept s b root) (hj : t.journal = s.journal ++ K)
    (hm : ∀ key, s.measurements.get? key ≠ none → t.measurements.get? key ≠ none)
    (hK : ∀ c o, .ran b c o ∈ K → t.measurements.get? (b.name, c.name) ≠ none) : e.Kept t b root := by
  intro A c o B tree hsplit hr hc hroot
  rw [hj] at hsplit
  rcases split_append hsplit with ⟨A', -, hA⟩ | ⟨J', hJ, -⟩
  · exact hK c o (hA ▸ by simp)
  · exact hm _ (h A c o J' tree hJ hr hc hroot)

namespace Economical

theorem fresh (world : W) (workspace : Workspace) (dataset : Option Dataset.Writer) :
    Economical e (.between []) (Session.fresh world workspace dataset) where
  remembering := .fresh world workspace dataset
  frugal _ := .nil
  charted b c o h := by cases h
  fits b c o h := by cases h

/-- Benchmarks that are done are not run any more. -/
theorem charted_append (h : Economical e P s) (hj : t.journal = s.journal ++ K)
    (hK : ∀ b c o, .ran b c o ∈ K → b.name ∉ P.done) :
    ∀ b c o, .ran b c o ∈ t.journal → b.name ∈ P.done → e.Charted t.journal b := by
  intro b c o hran hb
  rw [hj] at hran ⊢
  have hnew : ∀ c o, .ran b c o ∉ K := fun c o hmem => hK b c o hmem hb
  exact (h.charted b c o ((List.mem_append.1 hran).resolve_right (hnew c o)) hb).append hnew

theorem apart (h : Economical e P s) (hs : Apart s t) : Economical e P t := by
  obtain ⟨hm, K, hj, hK⟩ := hs
  have hran : ∀ b c o, .ran b c o ∉ K := fun b c o hmem => by simpa using hK _ hmem
  have hhead : ∀ r, K.head? ≠ some (.loaded r) := fun r hr => by
    simpa using hK _ (List.mem_of_head? hr)
  have hlaunch : launches K = [] := List.eq_nil_iff_forall_not_mem.2 fun key hkey => by
    obtain ⟨b, c, o, hmem, -⟩ := mem_launches.1 hkey
    exact hran b c o hmem
  refine ⟨h.remembering.add hj hm hhead ?_, fun hn => ?_, h.charted_append hj fun b c o hmem =>
    (hran b c o hmem).elim, ?_⟩
  · rintro A b c m ⟨run, B, rfl⟩
    exact hran b c (.ok run) (by simp)
  · rw [hj] at hn ⊢
    exact (h.frugal (noClash_of_append hn)).append_aside hlaunch hhead
  · have hvisit {visited done b f} (hfits : (Phase.visiting done b f visited).Fits e s) :
        (Phase.visiting done b f visited).Fits e t := by
      refine hfits.visit hj fun A b' c o B hA => ?_
      exact (hran b' c o (hA ▸ by simp)).elim
    cases P with
    | between done =>
      intro b c o hmem
      rw [hj] at hmem
      exact h.fits b c o ((List.mem_append.1 hmem).resolve_right (hran b c o))
    | visiting done b f visited => exact hvisit h.fits
    | growing done b f visited full =>
      obtain ⟨hfits, hf, hkept⟩ := h.fits
      exact ⟨hvisit hfits, hf, hkept.append hj (fun key => by rw [hm]; exact id)
        fun c o hmem => (hran b c o hmem).elim⟩

/-- A tree of the root at hand that is not remembered has not been run. -/
theorem not_launched (h : Economical e (.growing done b f visited full) s)
    (hc : Replay.configurationOf (full.upTo k) e.settings.resultsDir = .ok c)
    (hm : s.measurements.get? (b.name, c.name) = none) (hprepared : .prepared (full.upTo k) ∈ J)
    (hJ : s.journal <+: J) (hn : NoClash J) : (b.name, c.name) ∉ launches s.journal := by
  obtain ⟨⟨hdone, -, hlaunched⟩, hf, hkept⟩ := h.fits
  intro hmem
  obtain ⟨b', c', o, hran, hkey⟩ := mem_launches.1 hmem
  obtain ⟨hb', hc'⟩ := Prod.mk.inj hkey
  obtain ⟨A, B, hsplit⟩ := List.append_of_mem hran
  rcases hlaunched A b' c' o B hsplit with hold | ⟨rfl, rfl | ⟨t', hr, hconf, hoffers, -⟩⟩
  · exact hdone (hb' ▸ hold)
  · exact Replay.name_ne_full ((Replay.name_of_configurationOf hc).trans (congrArg Except.ok hc'.symm))
  · have hprepared' : .prepared t' ∈ J := hJ.subset (hsplit ▸ List.mem_append_left _ (mem_of_replayed hr))
    obtain rfl := eq_of_name hn hprepared hprepared' (offers_upTo hf k) hoffers hc hconf hc'.symm
    exact hkept A c' o B _ hsplit hr hconf rfl (hc' ▸ hm)

section Measuring

variable {o : Except Failure (CompletedRun × Measurement)}

/-- A tree of the root at hand was written out. -/
theorem written (h : Economical e (.growing done b f visited full) s) (ht : Remembering e t)
    (hs : s.Adds [.prepared (full.upTo k)] t) : Economical e (.growing done b f visited full) t := by
  have hfits : (Phase.visiting done b f (full.root :: visited)).Fits e s := h.fits.1
  obtain ⟨-, hf, hkept⟩ := h.fits
  have hj : t.journal = s.journal ++ [.prepared (full.upTo k)] := hs.journal
  refine ⟨ht, fun hn => ?_, h.charted_append hj (by simp), hfits.visit hj fun A b' c o B hA => ?_, hf,
    hkept.append hj (fun key => by rw [hs.measurements]; exact id) (by simp)⟩
  · rw [hj] at hn ⊢
    exact (h.frugal (noClash_of_append hn)).append_aside rfl (by simp)
  · rcases A with _ | ⟨ev, A⟩ <;> simp at hA

/-- A tree of the root at hand was run, with attempts that counted or not. -/
theorem attempted (h : Economical e (.growing done b f visited full) s) (ht : Remembering e t)
    (hc : Replay.configurationOf (full.upTo k) e.settings.resultsDir = .ok c)
    (hm : s.measurements.get? (b.name, c.name) = none) (hb : Block b c e.settings.maxRetries.toNat J o)
    (hj : t.journal = s.journal ++ .prepared (full.upTo k) :: J) :
    Economical e (.visiting done b f (full.root :: visited)) t := by
  have hfits : (Phase.visiting done b f (full.root :: visited)).Fits e s := h.fits.1
  have hf : f.tree full.root = .ok full := h.fits.2.1
  have hran : ∀ b' c' o', .ran b' c' o' ∈ J → b' = b ∧ c' = c := fun b' c' o' hmem => by
    simpa using hb.mem_cases hmem
  refine ⟨ht, fun hn => ?_, ?_, hfits.visit hj fun A b' c' o' B hA => ?_⟩
  · have hj' : t.journal = s.journal ++ [.prepared (full.upTo k)] ++ J := by rw [hj, List.append_assoc]; rfl
    have hnew := h.not_launched hc hm (J := t.journal) (by simp [hj]) ⟨_, hj.symm⟩ hn
    rw [hj'] at hn ⊢
    refine Frugal.append_block ?_ hb (Nat.lt_succ_self _) ?_
    · exact (h.frugal (noClash_of_append (noClash_of_append hn))).append_aside rfl (by simp)
    · rwa [launches_append, show launches [.prepared (full.upTo k)] = [] from rfl, List.append_nil]
  · refine h.charted_append hj fun b' c' o' hmem => ?_
    obtain ⟨rfl, -⟩ := hran b' c' o' (by simpa using hmem)
    exact hfits.1
  · rcases A with _ | ⟨ev, A⟩ <;> simp at hA
    obtain ⟨rfl, rfl⟩ := hA
    obtain ⟨rfl, rfl⟩ := hran b' c' o' (by simp)
    exact ⟨rfl, full.upTo k, hb.replayed_eq s.journal _, hc, offers_upTo hf k, .head _⟩

theorem measured (h : Economical e (.growing done b f visited full) s) {m : Measurement}
    (hs : (e.measureTree b (full.upTo k)).on s = (.ok m, t)) :
    Economical e (.growing done b f visited full) t := by
  have ht : Remembering e ((e.measureTree b (full.upTo k)).on s).2 := h.remembering.measureTree
  have hspec := e.measureTree_spec b (full.upTo k) s
  rw [hs] at ht hspec
  cases hspec with
  | remembered hc hm hadds => exact h.written ht hadds
  | @counted c J run _ _ hc hm hr hb hadds =>
    have hvisited := h.attempted ht hc hm hb hadds.journal
    have hput : t.measurements = s.measurements.put (b.name, c.name) m := hadds.measurements
    refine ⟨ht, hvisited.frugal, hvisited.charted, hvisited.fits, h.fits.2.1, ?_⟩
    refine h.fits.2.2.append hadds.journal (fun key hkey => ?_) fun c' o' hmem => ?_
    · rw [hput]
      by_cases heq : key = (b.name, c.name)
      · simp [heq]
      · rwa [Keyed.get?_put_of_ne heq]
    · have hran : .ran b c' o' ∈ J := by simpa using hmem
      obtain ⟨-, rfl⟩ : b = b ∧ c' = c := by simpa using hb.mem_cases hran
      simp [hput]

theorem failed (h : Economical e (.growing done b f visited full) s) {failure : Failure}
    (hs : (e.measureTree b (full.upTo k)).on s = (.error failure, t)) :
    Economical e (.visiting done b f (full.root :: visited)) t := by
  have ht : Remembering e ((e.measureTree b (full.upTo k)).on s).2 := h.remembering.measureTree
  have hspec := e.measureTree_spec b (full.upTo k) s
  rw [hs] at ht hspec
  cases hspec with
  | unprepared => exact ⟨ht, h.frugal, h.charted, h.fits.1⟩
  | refused hc hr hadds =>
    have hwritten := h.written ht hadds
    exact ⟨ht, hwritten.frugal, hwritten.charted, hwritten.fits.1⟩
  | failed hc hm hr hb hadds => exact h.attempted ht hc hm hb hadds.journal

end Measuring

section Capturing

variable {o : Except Failure (CompletedRun × Measurement)}

/-- A benchmark that is not done has not been run between two benchmarks. -/
theorem not_ran (h : Economical e (.between done) s) (hb : b.name ∉ done) (c : Configuration)
    (o : Except Failure CompletedRun) : .ran b c o ∉ s.journal :=
  fun hmem => hb (h.fits b c o hmem)

/-- The full model was run, with attempts that counted or not. -/
theorem frugal_captured (h : Economical e (.between done) s) (hdone : b.name ∉ done)
    (hb : Block b e.fullModel e.settings.maxRetries.toNat J o) (hn : NoClash s.journal) :
    Frugal (e.settings.maxRetries.toNat + 1) (s.journal ++ J) := by
  refine (h.frugal hn).append_block hb (Nat.lt_succ_self _) fun hmem => ?_
  obtain ⟨b', c', o', hran, hkey⟩ := mem_launches.1 hmem
  exact hdone ((Prod.mk.inj hkey).1 ▸ h.fits b' c' o' hran)

theorem opened (h : Economical e (.between done) s) (hb : b.name ∉ done) {m : Measurement}
    (hs : (e.fullForest b).on s = (.ok (f, m), t)) : Economical e (.visiting done b f []) t := by
  have ht : Remembering e ((e.fullForest b).on s).2 := h.remembering.fullForest
  have hspec := e.fullForest_spec b s
  rw [hs] at ht hspec
  cases hspec with
  | @captured J run _ _ ws _ hblock hload hadds =>
    have hj : t.journal = s.journal ++ (J ++ [.reported f]) := hadds.journal
    have hran : ∀ b' c' o', .ran b' c' o' ∈ J ++ [.reported f] → b' = b ∧ c' = e.fullModel := by
      intro b' c' o' hmem
      have hmem : .ran b' c' o' ∈ J := by simpa using hmem
      simpa using hblock.mem_cases hmem
    refine ⟨ht, fun hn => ?_, h.charted_append hj fun b' c' o' hmem => (hran b' c' o' hmem).1 ▸ hb, hb, ?_, ?_⟩
    · rw [hj] at hn ⊢
      rw [← List.append_assoc]
      exact (h.frugal_captured hb hblock (noClash_of_append hn)).append_aside rfl (by simp)
    · obtain ⟨K, rfl⟩ := hblock.exists_counted rfl
      exact ⟨s.journal ++ K, run, m, [], by simp [hj]⟩
    · intro A b' c' o' B hsplit
      have hmem : .ran b' c' o' ∈ s.journal ++ (J ++ [.reported f]) := by rw [← hj, hsplit]; simp
      rcases List.mem_append.1 hmem with hold | hnew
      · exact .inl (h.fits b' c' o' hold)
      · obtain ⟨rfl, rfl⟩ := hran b' c' o' hnew
        exact .inr ⟨rfl, .inl rfl⟩

/-- There is no forest, so the benchmark was not run but for the full model. -/
theorem closed (h : Economical e (.between done) s) (hb : b.name ∉ done) {failure : Failure}
    (hs : (e.fullForest b).on s = (.error failure, t)) : Economical e (.between (b.name :: done)) t := by
  have ht : Remembering e ((e.fullForest b).on s).2 := h.remembering.fullForest
  have hspec := e.fullForest_spec b s
  rw [hs] at ht hspec
  have hblock {J o} (hJ : Block b e.fullModel e.settings.maxRetries.toNat J o)
      (hj : t.journal = s.journal ++ J) : Economical e (.between (b.name :: done)) t := by
    have hran : ∀ b' c' o', .ran b' c' o' ∈ J → b' = b ∧ c' = e.fullModel := fun b' c' o' hmem => by
      simpa using hJ.mem_cases hmem
    refine ⟨ht, fun hn => hj ▸ h.frugal_captured hb hJ (noClash_of_append (hj ▸ hn)),
      fun b' c' o' hmem hname => ?_, fun b' c' o' hmem => ?_⟩
    · rcases List.mem_append.1 (hj ▸ hmem) with hold | hnew
      · refine h.charted_append hj (fun b' c' o' hmem => (hran b' c' o' hmem).1 ▸ hb) b' c' o' hmem ?_
        exact h.fits b' c' o' hold
      · obtain ⟨rfl, -⟩ := hran b' c' o' hnew
        refine .inl fun c' o' hmem => ?_
        exact (hran b' c' o' ((List.mem_append.1 (hj ▸ hmem)).resolve_left (h.not_ran hb c' o'))).2
    · rcases List.mem_append.1 (hj ▸ hmem) with hold | hnew
      · exact .tail _ (h.fits b' c' o' hold)
      · exact (hran b' c' o' hnew).1 ▸ .head _
  cases hspec with
  | refused => 
    exact ⟨ht, h.frugal, fun b' c' o' hmem _ => h.charted b' c' o' hmem (h.fits b' c' o' hmem),
      fun b' c' o' hmem => .tail _ (h.fits b' c' o' hmem)⟩
  | failed hJ hadds => exact hblock hJ hadds.journal
  | unreported hJ hadds => exact hblock hJ hadds.journal

end Capturing

theorem entered (h : Economical e (.visiting done b f visited) s) (hf : f.tree full.root = .ok full)
    (hv : full.root ∉ visited) : Economical e (.growing done b f visited full) s := by
  obtain ⟨hdone, hreported, hlaunched⟩ := h.fits
  refine ⟨h.remembering, h.frugal, h.charted,
    ⟨hdone, hreported, launched_mono hlaunched fun _ _ => List.mem_cons_of_mem _⟩, hf, ?_⟩
  -- no tree of the root was run before
  intro A c o B t hsplit hr hc hroot
  rcases hlaunched A b c o B hsplit with hold | ⟨-, rfl | ⟨t', hr', -, -, hvisited⟩⟩
  · exact (hdone hold).elim
  · exact (Replay.name_ne_full (Replay.name_of_configurationOf hc)).elim
  · obtain rfl : t = t' := Option.some.inj (hr.symm.trans hr')
    exact (hv (hroot ▸ hvisited)).elim

theorem finished (h : Economical e (.visiting done b f visited) s) : Economical e (.between (b.name :: done)) s := by
  obtain ⟨hdone, hreported, hlaunched⟩ := h.fits
  have hran {b' c' o'} (hmem : .ran b' c' o' ∈ s.journal) : b'.name ∈ done ∨ b' = b := by
    obtain ⟨A, B, hsplit⟩ := List.append_of_mem hmem
    exact (hlaunched A b' c' o' B hsplit).imp_right And.left
  refine ⟨h.remembering, h.frugal, fun b' c' o' hmem _ => ?_, fun b' c' o' hmem => ?_⟩
  · rcases hran hmem with hold | rfl
    · exact h.charted b' c' o' hmem hold
    · refine .inr ⟨f, hreported, fun A c o B hsplit => ?_⟩
      rcases hlaunched A b' c o B hsplit with hold | ⟨-, hfull | ⟨t, hr, hc, hoffers, -⟩⟩
      · exact (hdone hold).elim
      · exact .inl hfull
      · exact .inr ⟨t, hr, hc, hoffers⟩
  · rcases hran hmem with hold | rfl
    · exact .tail _ hold
    · exact .head _

theorem step (h : Economical e P s) (hs : Advance e (P, s) (Q, t)) : Economical e Q t := by
  cases hs with
  | apart hs => exact h.apart hs
  | opened hb hs => exact h.opened hb hs
  | closed hb hs => exact h.closed hb hs
  | passed root =>
    obtain ⟨hdone, hreported, hlaunched⟩ := h.fits
    exact ⟨h.remembering, h.frugal, h.charted, hdone, hreported,
      launched_mono hlaunched fun _ _ => List.mem_cons_of_mem _⟩
  | entered hf hv => exact h.entered hf hv
  | measured k hs => exact h.measured hs
  | failed k hs => exact h.failed hs
  | left => exact ⟨h.remembering, h.frugal, h.charted, h.fits.1⟩
  | finished => exact h.finished

theorem run {s₀ : Session W} (h₀ : Economical e (.between []) s₀) (h : Course e s₀ P s) :
    Economical e P s := by
  have hall {x y : Phase × Session W} (hxy : ReflTransGen (Advance e) x y) (hx : Economical e x.1 x.2) :
      Economical e y.1 y.2 := by
    induction hxy with
    | refl => exact hx
    | tail _ hs ih => exact ih.step hs
  exact hall h h₀

/-- What a run that counted came to is what is remembered of it. -/
theorem measurement_eq (h : Economical e P s) (hn : NoClash s.journal) {A : List Event} {m : Measurement}
    (hm : CountedAfter A s.journal b c m) : s.measurements.get? (b.name, c.name) = some m := by
  obtain ⟨m', hget⟩ := Option.ne_none_iff_exists'.1 (h.remembering.complete A b c m hm)
  obtain ⟨A', b', c', hm', hkey⟩ := h.remembering.sound _ _ hget
  rw [hget, (h.frugal hn).eq_of_counted hm hm' hkey.symm]

end Economical

/-- A tree whose run counted before is written out again at most. -/
theorem Remembering.measureTree_of_counted {p : String → MethodId → Prop} {A : List Event} {m : Measurement}
    {tree : Tree} (h : Remembering e s) (hretries : 0 ≤ e.settings.maxRetries) (hst : ReflTransGen (Step e p) s t)
    (hm : CountedAfter A s.journal b c m) (hc : Replay.configurationOf tree e.settings.resultsDir = .ok c) :
    (∃ failure, (e.measureTree b tree).on t = (.error failure, t)) ∨
      ∃ v, (e.measureTree b tree).on t = (.ok m, v) ∧ v.launches = t.launches := by
  have hname : c.name ≠ e.fullModel.name := fun hfull =>
    Replay.name_ne_full ((Replay.name_of_configurationOf hc).trans (congrArg Except.ok hfull))
  obtain ⟨m', hget⟩ := Option.ne_none_iff_exists'.1 (h.complete A b c m hm)
  obtain ⟨A', b', c', hm', hkey⟩ := h.sound _ _ hget
  obtain rfl := h.once A A' b b' c c' m m' hm hm' hkey.symm hname
  obtain rfl := hm.measurement_eq hm'
  have hknown : t.measurements.get? (b.name, c.name) = some m := Step.run_recalls hst hname hget
  have hspec := e.measureTree_spec b tree t
  rcases ho : (e.measureTree b tree).on t with ⟨o, v⟩
  rw [ho] at hspec
  have hsame {c'} (hc' : Replay.configurationOf tree e.settings.resultsDir = .ok c') : c' = c :=
    Except.ok.inj (hc'.symm.trans hc)
  cases hspec with
  | unprepared failure => exact .inl ⟨failure, rfl⟩
  | remembered hc' hget' hadds =>
    obtain rfl := hsame hc'
    obtain rfl := Option.some.inj (hknown.symm.trans hget')
    refine .inr ⟨v, rfl, ?_⟩
    rw [Session.launches, hadds.journal, List.filterMap_append]
    exact List.append_nil _
  | refused _ hr => exact absurd hr (Int.not_lt.2 hretries)
  | failed hc' hnone =>
    obtain rfl := hsame hc'
    cases hknown.symm.trans hnone
  | counted hc' hnone =>
    obtain rfl := hsame hc'
    cases hknown.symm.trans hnone

/-- A root with `n` decisions has `n + 1` first parts of its tree, and each has one configuration. -/
theorem Explorer.Charted.costs (h : e.Charted J b) {root : MethodId} (hran : e.RanFor J b root c) :
    ∃ f full, ∃ cs : List Configuration, e.Reported J b f ∧ f.tree root = .ok full ∧
      cs.length ≤ full.size + 1 ∧ ∀ c, e.RanFor J b root c → c ∈ cs := by
  rcases h with hfull | ⟨f, hf, hoffers⟩
  · obtain ⟨A, o, B, t, rfl, hc, -⟩ := hran
    exact (hc (hfull c o (by simp))).elim
  have hoffer {c} (hran : e.RanFor J b root c) : ∃ full k, f.tree root = .ok full ∧
      Replay.configurationOf (full.upTo k) e.settings.resultsDir = .ok c := by
    obtain ⟨A, o, B, t, hsplit, hc, ht, rfl⟩ := hran
    obtain ⟨t', ht', hconf, full, k, hfull, rfl⟩ := (hoffers A c o B hsplit).resolve_left hc
    obtain rfl := Option.some.inj (ht.symm.trans ht')
    exact ⟨full, k, hfull, hconf⟩
  obtain ⟨full, -, hfull, -⟩ := hoffer hran
  refine ⟨f, full, (List.range (full.size + 1)).filterMap fun k =>
    (Replay.configurationOf (full.upTo k) e.settings.resultsDir).toOption, hf, hfull, ?_, fun c hc => ?_⟩
  · exact (List.length_filterMap_le ..).trans List.length_range.le
  · obtain ⟨full', k, hfull', hconf⟩ := hoffer hc
    obtain rfl := Except.ok.inj (hfull.symm.trans hfull')
    refine List.mem_filterMap.2 ⟨min k full.size, List.mem_range.2 (by omega), ?_⟩
    rw [← Tree.upTo_min, hconf]
    rfl

end Invariant

/-- No run of an exploration that began in the session `s₀` and ended in `s` is redundant. -/
structure Explorer.WastesNone (e : Explorer W) (s₀ s : Session W) : Prop where
  /-- The runs of one benchmark under one configuration are one block of attempts. -/
  block : ∀ key, ∃ A n B, s.launches = A ++ List.replicate n key ++ B ∧
    (n : Int) ≤ e.settings.maxRetries + 1 ∧ key ∉ A ∧ key ∉ B
  /-- A run that counted is the last of its block, and is what is remembered. -/
  settled : ∀ A b c m run B, s.journal = A ++ .ran b c (.ok run) :: .loaded (.ok m) :: B →
    (b.name, c.name) ∉ launches B ∧ s.measurements.get? (b.name, c.name) = some m
  /-- Once a replay counted, whoever measures the tree later gets the same, and no run is started. -/
  reused : ∀ t u, ReflTransGen (Step e fun _ _ => True) s₀ t → ReflTransGen (Step e fun _ _ => True) t u →
    ∀ A b c m tree, CountedAfter A t.journal b c m →
      Replay.configurationOf tree e.settings.resultsDir = .ok c →
        (∃ failure, (e.measureTree b tree).on u = (.error failure, u)) ∨
          ∃ v, (e.measureTree b tree).on u = (.ok m, v) ∧ v.launches = u.launches
  /-- Attempts that all failed leave nothing behind. -/
  forgotten : ∀ key, (∀ A b c m, CountedAfter A s.journal b c m → (b.name, c.name) ≠ key) →
    s.measurements.get? key = none
  /-- Apart from the full model, only first parts of trees are run. -/
  charted : ∀ b c o, .ran b c o ∈ s.journal → e.Charted s.journal b
  /-- A root with `n` decisions is run under `n + 1` configurations at most. -/
  costs : ∀ b root c, e.RanFor s.journal b root c → ∃ f full, ∃ cs : List Configuration,
    e.Reported s.journal b f ∧ f.tree root = .ok full ∧ cs.length ≤ full.size + 1 ∧
      ∀ c, e.RanFor s.journal b root c → c ∈ cs

/-- An exploration of benchmarks with different names wastes no run, unless two trees that differ in their
written form were written out under one name. -/
theorem explore_wastesNone (e : Explorer W) (bs : List Benchmark) (world : W) (workspace : Workspace)
    (dataset : Option Dataset.Writer) (hnames : (bs.map (·.name)).Nodup) (hretries : 0 ≤ e.settings.maxRetries) :
    let s₀ := Session.fresh world workspace dataset
    let done := (e.explore bs).on s₀
    NoClash done.2.journal → e.WastesNone s₀ done.2 := by
  intro s₀ done hn
  obtain ⟨names, hcourse⟩ := explore_course e hnames s₀
  have hs : Economical e (.between names) done.2 := (Economical.fresh world workspace dataset).run hcourse
  have hcharted {b c o} (hmem : .ran b c o ∈ done.2.journal) : e.Charted done.2.journal b :=
    hs.charted b c o hmem (hs.fits b c o hmem)
  constructor
  case block =>
    intro key
    obtain ⟨A, n, B, hlaunches, hlimit, hA, hB⟩ := (hs.frugal hn).block key
    exact ⟨A, n, B, hlaunches, by omega, hA, hB⟩
  case settled =>
    intro A b c m run B hsplit
    exact ⟨(hs.frugal hn).settled A b c m run B hsplit, hs.measurement_eq hn ⟨run, B, hsplit⟩⟩
  case reused =>
    intro t u ht htu A b c m tree hm hc
    have hrem : Remembering e t := (Remembering.fresh world workspace dataset).run ht
    exact hrem.measureTree_of_counted hretries htu hm hc
  case forgotten =>
    intro key hnone
    by_contra hsome
    obtain ⟨m, hget⟩ := Option.ne_none_iff_exists'.1 hsome
    obtain ⟨A, b, c, hm, hkey⟩ := hs.remembering.sound _ _ hget
    exact hnone A b c m hm hkey
  case charted => exact fun b c o hmem => hcharted hmem
  case costs =>
    intro b root c hran
    obtain ⟨A, o, B, t, hsplit, -⟩ := id hran
    have hmem : .ran b c o ∈ done.2.journal := hsplit ▸ by simp
    exact (hcharted hmem).costs hran

/-- A single benchmark whose forest has one root, for which nothing has to be assumed of names. -/
theorem explore_lone_wastesNone :
    let s₀ := Session.fresh () loneFiles none
    let done := (loneExplorer.explore [lone]).on s₀
    ([lone].map (·.name)).Nodup ∧ 0 ≤ loneExplorer.settings.maxRetries ∧ NoClash done.2.journal ∧
      loneExplorer.WastesNone s₀ done.2 :=
  ⟨by decide, by decide, noClash_of_lone,
    explore_wastesNone loneExplorer [lone] () loneFiles none (by decide) (by decide) noClash_of_lone⟩

end InlineImpact.Exploration
