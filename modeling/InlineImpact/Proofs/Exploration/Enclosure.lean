import InlineImpact.Proofs.Exploration.Abreast
import InlineImpact.Proofs.Exploration.Pairing

/-!
The work on one root, seen from outside of an enclave. If the enclave is about this root, then the work leaves
everything outside alone, however its runs go; if not, the work comes to the same on two hosts that agree on
the runs it asks for. Both go by induction on the decisions that the tree still has to grow by.
-/
namespace InlineImpact.Exploration

open Exploring (Within)

variable {W α : Type}

/-- The explorer with another host. -/
abbrev Explorer.withHost (e : Explorer W) (h : Host W) : Explorer W := { e with host := h }

/-- By the regime, the full model's run of the benchmark reports this forest. -/
def Explorer.Models (e : Explorer W) (p : Regime) (b : Benchmark) (f : Forest) : Prop :=
  ∃ m, p.model b e.fullModel = .ok (f, m)

namespace Enclave

variable (E : Enclave)

/-- The work on the root has nothing to do with the enclave: it asks for no runs that replay it, and meets
none of its contexts. -/
structure Excludes (e : Explorer W) (p q : Regime) (b : Benchmark) (f : Forest) (root : MethodId) : Prop where
  runs : ∀ t c, f.Offers t → t.root = root → Replay.configurationOf t e.settings.resultsDir = .ok c →
    ¬E.Owns b c ∧ p.attempt b c = q.attempt b c
  contexts : ∀ full, f.tree root = .ok full → ∀ d ∈ full.decisions, ¬E.contexts d.context

/-- The root is the one of the enclave. -/
structure Encloses (e : Explorer W) (b : Benchmark) (f : Forest) (root : MethodId) : Prop where
  owns : ∀ t c, f.Offers t → t.root = root → Replay.configurationOf t e.settings.resultsDir = .ok c →
    E.Owns b c
  contexts : ∀ full, f.tree root = .ok full → ∀ d ∈ full.decisions, E.contexts d.context
  place : b.name = E.benchmark ∧ root = E.root

variable {E}

theorem Lost.of_never {lost : α → Prop} {o : Except Failure α} (h : Lost Never o) : Lost lost o := by
  cases o with
  | ok a => exact h.elim
  | error failure => exact h

theorem Likewise.of_eq {o o' : Except Failure α} (h : o = o') : Likewise Eq o o' := by
  subst h
  cases o with
  | ok a => exact .ok rfl
  | error failure => exact .error failure

namespace Abreast

variable {lost : α → Prop} {R : α → α → Prop} {x x' y y' : Exploring W α}

theorem relax (h : E.Abreast Never R x y) : E.Abreast lost R x y :=
  fun s t hst => (h s t hst).imp Lost.of_never (Or.imp_left Lost.of_never)

theorem ite {c : Prop} [Decidable c] (h : E.Abreast lost R x y) (h' : E.Abreast lost R x' y') :
    E.Abreast lost R (if c then x else x') (if c then y else y') := by
  split
  · exact h
  · exact h'

end Abreast

end Enclave

/-- What an operation comes to, if it does not end the exploration. -/
theorem Exploring.Yields.lost_or {x : Exploring W α} {s : Session W} {P : Except Failure α → Session W → Prop}
    (h : x.Yields s (fun a t => P (.ok a) t) fun failure t => Terminal failure ∨ P (.error failure) t) :
    Enclave.Lost Enclave.Never (x.on s).1 ∨ P (x.on s).1 (x.on s).2 := by
  rcases ho : x.on s with ⟨failure | a, t⟩
  · exact h.error failure t ho
  · exact .inr (h.ok a t ho)

theorem Enclave.lost_of_error {x : Exploring W α} {s t : Session W} {lost : α → Prop} {failure : Failure}
    (h : x.on s = (.error failure, t)) (hterminal : Terminal failure) : Enclave.Lost lost (x.on s).1 := by
  rw [h]
  exact hterminal

open Enclave

section Outside

variable {E : Enclave} {e : Explorer W} {h' : Host W} {p q : Regime} (hp : e.host.Obeys p) (hq : h'.Obeys q)
  {b : Benchmark} {f : Forest} {full : Tree}

include hp hq

theorem measureTree_abreast {t : Tree} (ht : ∀ c, Replay.configurationOf t e.settings.resultsDir = .ok c →
    ¬E.Owns b c ∧ p.attempt b c = q.attempt b c) :
    E.Abreast Never Eq (e.measureTree b t) ((e.withHost h').measureTree b t) := by
  intro s u hsu
  have hx := (measureTree_obeys hp b t s).lost_or (P := fun o v =>
    ∃ c, Replay.configurationOf t e.settings.resultsDir = .ok c ∧
      (p.measure b c s.measurements).1 = o ∧ s.Learns (p.measure b c s.measurements).2 v)
  have hy := (measureTree_obeys (e := e.withHost h') hq b t u).lost_or (P := fun o v =>
    ∃ c, Replay.configurationOf t e.settings.resultsDir = .ok c ∧
      (q.measure b c u.measurements).1 = o ∧ u.Learns (q.measure b c u.measurements).2 v)
  refine hx.imp_right fun ⟨c, hc, ho, hs⟩ => hy.imp_right fun ⟨c', hc', ho', hu⟩ => ?_
  obtain rfl : c = c' := Except.ok.inj (hc.symm.trans hc')
  obtain ⟨hout, hsame⟩ := ht c hc
  obtain ⟨heq, hagree⟩ := hsu.measurements.measure hout hsame
  exact ⟨hsu.learns hs hu hagree, .of_eq (ho.symm.trans (heq.trans ho'))⟩

theorem fullForest_abreast (hsame : p.attempt b e.fullModel = q.attempt b e.fullModel)
    (hlog : p.log b e.fullModel = q.log b e.fullModel) :
    E.Abreast Never (fun r r' => r = r' ∧ p.model b e.fullModel = .ok r) (e.fullForest b)
      ((e.withHost h').fullForest b) := by
  intro s u hsu
  have hx := (fullForest_obeys hp b s).lost_or (P := fun o v =>
    p.model b e.fullModel = o ∧ s.Learns (p.learn b e.fullModel s.measurements) v)
  have hy := (fullForest_obeys (e := e.withHost h') hq b u).lost_or (P := fun o v =>
    q.model b e.fullModel = o ∧ u.Learns (q.learn b e.fullModel u.measurements) v)
  refine hx.imp_right fun ⟨ho, hs⟩ => hy.imp_right fun ⟨ho', hu⟩ => ?_
  refine ⟨hsu.learns hs hu (hsu.measurements.learn hsame), ?_⟩
  have hmodel : p.model b e.fullModel = q.model b e.fullModel := by
    rw [Regime.model, Regime.model, hsame, hlog]
  rw [← ho, ← ho', ← hmodel]
  cases h : p.model b e.fullModel with
  | ok r => exact .ok ⟨rfl, rfl⟩
  | error failure => exact .error failure

omit hp hq in
theorem emitMissing_abreast (root : MethodId) {ds : List Decision} (hds : ∀ d ∈ ds, ¬E.contexts d.context) :
    E.Abreast Never Eq (Explorer.emitMissing b root ds : Exploring W Nat) (Explorer.emitMissing b root ds) := by
  induction ds with
  | nil => exact .pure rfl
  | cons d rest ih =>
    obtain ⟨hd, hrest⟩ := List.forall_mem_cons.1 hds
    unfold Explorer.emitMissing
    refine .isExplored_bind hd fun answer => .ite (ih hrest) ?_
    refine (emit_abreast _).next fun _ _ _ => (ih hrest).next ?_
    rintro n _ rfl
    exact .pure rfl

omit hp hq in
theorem giveUp_abreast {ds : List Decision} (hds : ∀ d ∈ ds, ¬E.contexts d.context) (report : RootReport)
    (fault : RunFault) : E.Abreast Never Eq (Explorer.giveUp b ds report fault : Exploring W RootReport)
      (Explorer.giveUp b ds report fault) := by
  unfold Explorer.giveUp
  refine .say_bind ((emitMissing_abreast report.root hds).next ?_)
  rintro n _ rfl
  exact .pure rfl

omit hp hq in
/-- A measurement that comes to the same on both sides cuts the root short on both sides, or on neither. -/
theorem caught_abreast {x y : Exploring W (Measurement × Measurement)} {ds : List Decision} {report : RootReport}
    {k l : Except Failure (Measurement × Measurement) → Exploring W RootReport}
    (hds : ∀ d ∈ ds, ¬E.contexts d.context) (hx : E.Abreast Never Eq x y)
    (hk : ∀ runs, E.Abreast (fun r => r.isAborted = true) Eq (k (.ok runs)) (l (.ok runs)))
    (hfailed : ∀ failure, k (.error failure) = Explorer.cutShort b ds report failure ∧
      l (.error failure) = Explorer.cutShort b ds report failure) :
    E.Abreast (fun r => r.isAborted = true) Eq (caught x >>= k) (caught y >>= l) := by
  refine hx.caught_bind ?_ ?_
  · rintro _ _ (@⟨runs, _, ⟨⟩⟩ | failure) - -
    · exact hk runs
    · rw [(hfailed failure).1, (hfailed failure).2]
      cases failure with
      | aborted point => exact .pure rfl
      | run fault code => exact (giveUp_abreast hds report fault).relax
      | _ => exact .throw _
  · rintro (failure | _) u hlost
    · rw [(hfailed failure).1, (hfailed failure).2]
      rcases hlost with hfatal | ⟨point, rfl⟩
      · cases failure with
        | aborted point => exact ⟨rfl, rfl⟩
        | run fault code => cases hfatal
        | _ => exact ⟨hfatal.terminal, hfatal.terminal⟩
      · exact ⟨rfl, rfl⟩
    · exact hlost.elim

variable {root : MethodId} (h : E.Excludes e p q b f root)

include h

theorem measureEnds_abreast (hf : f.tree root = .ok full) :
    E.Abreast Never Eq (e.measureEnds b full) ((e.withHost h').measureEnds b full) := by
  obtain rfl := Forest.root_of_tree hf
  have hmeasure {t : Tree} (ht : f.Offers t) (hroot : t.root = full.root) :=
    measureTree_abreast (E := E) hp hq (b := b) fun c => h.runs t c ht hroot
  unfold Explorer.measureEnds
  refine (hmeasure (t := .empty full.root) ⟨full, 0, hf, rfl⟩ rfl).next ?_
  rintro empty _ rfl
  refine poll_abreast e (e.withHost h') ?_ fun u =>
    ⟨lost_of_error (Exploring.on_bind_error (Exploring.on_throw _ u) _) (.inr ⟨_, rfl⟩),
      lost_of_error (Exploring.on_bind_error (Exploring.on_throw _ u) _) (.inr ⟨_, rfl⟩)⟩
  refine (hmeasure (t := full) ⟨full, full.size, hf, full.upTo_size.symm⟩ rfl).next ?_
  rintro m _ rfl
  exact .pure rfl

theorem measurePair_abreast (hf : f.tree root = .ok full) (i : Nat) (known : Option Measurement) :
    E.Abreast Never Eq (e.measurePair b (full.upTo i) known (full.upTo (i + 1)))
      ((e.withHost h').measurePair b (full.upTo i) known (full.upTo (i + 1))) := by
  obtain rfl := Forest.root_of_tree hf
  have hmeasure (k : Nat) := measureTree_abreast (E := E) hp hq (b := b) fun c =>
    h.runs (full.upTo k) c (offers_upTo hf k) rfl
  have hrest (parent : Measurement) : E.Abreast Never Eq
      (e.measureTree b (full.upTo (i + 1)) >>= fun child => pure (parent, child))
      ((e.withHost h').measureTree b (full.upTo (i + 1)) >>= fun child => pure (parent, child)) := by
    refine (hmeasure (i + 1)).next ?_
    rintro child _ rfl
    exact .pure rfl
  cases known with
  | some m =>
    refine (Abreast.pure (R := Eq) (a := m) rfl).next ?_
    rintro parent _ rfl
    exact hrest parent
  | none =>
    refine (hmeasure i).next ?_
    rintro parent _ rfl
    exact hrest parent

/-- By induction on the decisions that are left: each goes into the same tree on both sides. -/
theorem grow_abreast (hf : f.tree root = .ok full) {i : Nat} {ds : List Decision}
    (hds : full.decisions.drop i = ds) (known : Option Measurement) (report : RootReport) :
    E.Abreast (fun r => r.isAborted = true) Eq (e.grow b f (full.upTo i) known report ds)
      ((e.withHost h').grow b f (full.upTo i) known report ds) := by
  induction ds generalizing i known report with
  | nil => exact .pure rfl
  | cons d rest ih =>
    obtain ⟨hd, hrest, -⟩ := Tree.of_drop_eq_cons hds
    have hcontexts : ∀ d' ∈ d :: rest, ¬E.contexts d'.context := fun d' hd' =>
      h.contexts full hf d' (List.mem_of_mem_drop (hds ▸ hd'))
    rw [Explorer.grow_cons, Explorer.grow_cons]
    refine poll_abreast e (e.withHost h') ?_ fun u => ⟨rfl, rfl⟩
    refine .demand_bind fun child hchild => ?_
    obtain rfl := Tree.eq_upTo_of_insert hd (mapError_eq_ok.1 hchild)
    refine .isExplored_bind (hcontexts d (.head _)) fun answer => .ite (ih hrest none _) ?_
    refine caught_abreast hcontexts (measurePair_abreast hp hq h hf i known) (fun runs => ?_) fun _ => ⟨rfl, rfl⟩
    refine .demand_bind fun est _ => Abreast.next (S := Eq) ?_ fun _ _ _ => ?_
    · exact (emit_abreast _).next fun _ _ _ => markExplored_abreast _
    · exact .ite (.say_bind (ih hrest _ _)) (ih hrest _ _)

theorem exploreTree_abreast (hf : f.tree full.root = .ok full) (hroot : full.root = root) :
    E.Abreast (fun r => r.isAborted = true) Eq (e.exploreTree b f full) ((e.withHost h').exploreTree b f full) := by
  subst hroot
  rw [Explorer.exploreTree_eq, Explorer.exploreTree_eq]
  refine caught_abreast (h.contexts full hf) (measureEnds_abreast hp hq h hf) (fun runs => ?_) fun _ => ⟨rfl, rfl⟩
  refine .demand_bind fun noise _ => .ite ?_ (grow_abreast hp hq h hf (i := 0) rfl _ _)
  exact .ite (.say_bind (.pure rfl)) (.pure rfl)

/-- The work on another root comes to the same on both sides. -/
theorem exploreRoot_abreast : E.Abreast (fun r => r.isAborted = true) Eq (e.exploreRoot b f root)
    ((e.withHost h').exploreRoot b f root) := by
  unfold Explorer.exploreRoot
  refine .demand_bind fun full hfull => ?_
  have hf := mapError_eq_ok.1 hfull
  obtain rfl := Forest.root_of_tree hf
  intro s t hst
  have hexplored : (full.decisions.all fun d => s.explored.contains d.context) =
      full.decisions.all fun d => t.explored.contains d.context := by
    rw [Bool.eq_iff_iff, List.all_eq_true, List.all_eq_true]
    exact forall₂_congr fun d hd => by rw [hst.contains_eq (h.contexts full hf d hd)]
  rw [Exploring.on_bind_ok (Exploring.on_get s), Exploring.on_bind_ok (Exploring.on_get t)]
  dsimp only
  rw [hexplored]
  exact Abreast.ite (.pure rfl) (.ite (.pure rfl) (exploreTree_abreast hp hq h hf rfl)) s t hst

end Outside

section Inside

variable {E : Enclave} {e : Explorer W} {b : Benchmark} {f : Forest} {full : Tree} {root : MethodId}

theorem say_enclosed (text : String) : (say text : Exploring W Unit).Within E.Alike :=
  still_enclosed fun _ => ⟨rfl, rfl, rfl⟩

theorem poll_enclosed (e : Explorer W) : e.poll.Within E.Alike := still_enclosed (learns_of_poll e)

theorem emitMissing_enclosed (hspares : ∀ d, E.spares ⟨b.name, root, d, none⟩ = false) (ds : List Decision) :
    (Explorer.emitMissing b root ds : Exploring W Nat).Within E.Alike := by
  induction ds with
  | nil => exact .pure _
  | cons d rest ih =>
    refine Within.bind (.of_still fun _ => rfl) fun answer => ?_
    cases answer with
    | true => exact ih
    | false => exact (emit_enclosed (hspares d)).bind fun _ => ih.bind fun _ => .pure _

variable (h : E.Encloses e b f root)

include h

theorem Enclave.Encloses.spares_eq_false (d : Decision) (est : Option Estimate) :
    E.spares ⟨b.name, root, d, est⟩ = false := by
  simp [Enclave.spares, h.place.1, h.place.2]

theorem giveUp_enclosed (ds : List Decision) {report : RootReport} (hroot : report.root = root)
    (fault : RunFault) : (Explorer.giveUp b ds report fault : Exploring W RootReport).Within E.Alike := by
  subst hroot
  exact (say_enclosed _).bind fun _ =>
    (emitMissing_enclosed (fun d => h.spares_eq_false d none) ds).bind fun _ => .pure _

theorem measureEnds_enclosed (hf : f.tree root = .ok full) : (e.measureEnds b full).Within E.Alike := by
  obtain rfl := Forest.root_of_tree hf
  have hfull := measureTree_enclosed e fun c => h.owns full c ⟨full, full.size, hf, full.upTo_size.symm⟩ rfl
  refine (measureTree_enclosed e fun c => h.owns _ c (offers_upTo hf 0) rfl).bind fun empty => ?_
  refine (poll_enclosed e).bind fun answer => ?_
  cases answer with
  | true => exact Within.bind (.throw _) fun _ => hfull.bind fun _ => .pure _
  | false => exact hfull.bind fun _ => .pure _

theorem measurePair_enclosed (hf : f.tree root = .ok full) (i : Nat) (known : Option Measurement) :
    (e.measurePair b (full.upTo i) known (full.upTo (i + 1))).Within E.Alike := by
  obtain rfl := Forest.root_of_tree hf
  have hmeasure (k : Nat) := measureTree_enclosed e fun c => h.owns _ c (offers_upTo hf k) rfl
  cases known with
  | some m => exact Within.bind (.pure _) fun _ => (hmeasure (i + 1)).bind fun _ => .pure _
  | none => exact (hmeasure i).bind fun _ => (hmeasure (i + 1)).bind fun _ => .pure _

theorem cutShort_enclosed (ds : List Decision) {report : RootReport} (hroot : report.root = root)
    (failure : Failure) : (Explorer.cutShort b ds report failure : Exploring W RootReport).Within E.Alike := by
  cases failure with
  | aborted point => exact .pure _
  | run fault code => exact giveUp_enclosed h ds hroot fault
  | _ => exact .throw _

theorem grow_enclosed (hf : f.tree root = .ok full) {i : Nat} {ds : List Decision}
    (hds : full.decisions.drop i = ds) (known : Option Measurement) {report : RootReport}
    (hroot : report.root = root) : (e.grow b f (full.upTo i) known report ds).Within E.Alike := by
  induction ds generalizing i known report with
  | nil => exact .pure _
  | cons d rest ih =>
    obtain ⟨hd, hrest, -⟩ := Tree.of_drop_eq_cons hds
    have hcontext := h.contexts full hf d (List.mem_of_getElem? hd)
    rw [Explorer.grow_cons]
    refine (poll_enclosed e).bind fun answer => ?_
    cases answer with
    | true => exact .pure _
    | false =>
      refine demand_within fun child hchild => ?_
      obtain rfl := Tree.eq_upTo_of_insert hd (mapError_eq_ok.1 hchild)
      refine Within.bind (.of_still fun _ => rfl) fun answer => ?_
      cases answer with
      | true => exact ih hrest none hroot
      | false =>
        refine (measurePair_enclosed h hf i known).caught.bind fun o => ?_
        rcases o with failure | ⟨parentRun, childRun⟩
        · exact cutShort_enclosed h _ hroot failure
        · refine demand_within fun est _ => ?_
          have hemit : (Explorer.emitMeasured b report.root d est : Exploring W Unit).Within E.Alike :=
            (emit_enclosed (by rw [hroot]; exact h.spares_eq_false d (some est))).bind fun _ =>
              markExplored_enclosed hcontext
          refine hemit.bind fun _ => ?_
          dsimp only
          split
          · exact (say_enclosed _).bind fun _ => ih hrest (some childRun) hroot
          · exact ih hrest (some childRun) hroot

theorem exploreTree_enclosed (hf : f.tree full.root = .ok full) (hroot : full.root = root) :
    (e.exploreTree b f full).Within E.Alike := by
  rw [Explorer.exploreTree_eq]
  refine (measureEnds_enclosed h (hroot ▸ hf)).caught.bind fun o => ?_
  rcases o with failure | ⟨emptyRun, fullRun⟩
  · exact cutShort_enclosed h _ hroot failure
  · refine demand_within fun noise _ => ?_
    cases noise with
    | false => exact grow_enclosed h (hroot ▸ hf) (i := 0) rfl _ hroot
    | true =>
      rw [if_pos rfl]
      split
      · exact (say_enclosed _).bind fun _ => .pure _
      · exact .pure _

/-- The work on the root of the enclave leaves everything outside of it alone. -/
theorem exploreRoot_enclosed : (e.exploreRoot b f root).Within E.Alike := by
  refine demand_within fun full hfull => ?_
  have hf := mapError_eq_ok.1 hfull
  obtain rfl := Forest.root_of_tree hf
  refine Within.bind .get fun u => ?_
  dsimp only
  split
  · exact .pure _
  · split
    · exact .pure _
    · exact exploreTree_enclosed h hf rfl

end Inside

end InlineImpact.Exploration
