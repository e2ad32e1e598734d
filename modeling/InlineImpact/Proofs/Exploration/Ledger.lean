import InlineImpact.Proofs.Exploration.Fault
import InlineImpact.Proofs.Exploration.Step
import InlineImpact.Proofs.Forest

/-!
What the work on one benchmark adds to the journal: rows for places in a given order, and runs that
replay trees of given roots. The report of a root counts the rows that were handed out for it, also when
runs fail on the way. `exploreForest_did` has this for all roots of a forest.
-/
namespace InlineImpact

open Exploration (Event)
open scoped List

/-- Where a row belongs: to a decision of a root of a benchmark. -/
abbrev Dataset.Position := String × MethodId × Decision

def Dataset.Row.position (r : Row) : Position := (r.benchmark, r.root, r.decision)

open Dataset (Row Position)

/-- Where the rows of some decisions of a root belong. -/
def positions (benchmark : String) (root : MethodId) (ds : List Decision) : List Position :=
  ds.map fun d => (benchmark, root, d)

/-- The decisions of the root's tree, in their order. -/
def Forest.decisionsOf (f : Forest) (root : MethodId) : List Decision :=
  match f.tree root with
  | .ok full => full.decisions
  | .error _ => []

namespace Exploration

open Exploring (Yields)
open Journal

variable {W : Type}

namespace Journal

/-- The rows that were handed out. -/
def rows (J : List Event) : List Row := J.filterMap Event.row?

/-- The rows that were handed out for a root of a benchmark. -/
def rowsOf (J : List Event) (benchmark : String) (root : MethodId) : List Row :=
  (rows J).filter fun row => row.benchmark = benchmark ∧ row.root = root

@[simp] theorem rows_nil : rows [] = [] := rfl

@[simp] theorem rows_append (J K : List Event) : rows (J ++ K) = rows J ++ rows K :=
  List.filterMap_append

@[simp] theorem rows_emitted (row : Row) : rows [.emitted row] = [row] := rfl

@[simp] theorem rows_polled (answer : Bool) : rows [.polled answer] = [] := rfl

@[simp] theorem rowsOf_append (J K : List Event) (benchmark : String) (root : MethodId) :
    rowsOf (J ++ K) benchmark root = rowsOf J benchmark root ++ rowsOf K benchmark root := by
  simp [rowsOf]

end Journal

section Assertions

variable (e : Explorer W)

/-- Every run of the benchmark is one of the full model, or replays the tree that was written out last, and
that is one of the roots'. -/
def Explorer.Replays (benchmark : String) (R : MethodId → Prop) (J : List Event) : Prop :=
  ∀ A b c o B, J = A ++ .ran b c o :: B → b.name = benchmark → c = e.fullModel ∨
    ∃ t, replayed A = some t ∧ Replay.configurationOf t e.settings.resultsDir = .ok c ∧ R t.root

/-- Between the sessions there was work on the benchmark: the events `J`, with runs for the roots `R`, and
with rows for some of the positions `P`, in their order. -/
structure Explorer.Did (b : Benchmark) (R : MethodId → Prop) (P : List Position) (s : Session W)
    (J : List Event) (t : Session W) : Prop where
  journal : t.journal = s.journal ++ J
  own : ∀ b' c o, .ran b' c o ∈ J → b' = b
  replays : e.Replays b.name R J
  placed : (rows J).map Row.position <+ P

/-- The second report is the first one after these rows: it counts those with and those without data. -/
structure RootReport.Becomes (report r : RootReport) (new : List Row) : Prop where
  root : r.root = report.root
  pairs : r.pairs = report.pairs + new.countP (·.estimate.isSome)
  missing : r.missing = report.missing + new.countP (·.estimate.isNone)

/-- The failure ends the exploration, unless the host lacks forests of its own. -/
def Explorer.Ends (failure : Failure) : Prop := e.host.BlamesNoForest → Fatal failure

end Assertions

section Events

variable {e : Explorer W} {b : Benchmark} {R R' : MethodId → Prop} {P Q : List Position} {s t u : Session W}
  {J K : List Event} {benchmark : String}

theorem replays_nil : e.Replays benchmark R [] := by
  intro A b c o B h
  simp at h

theorem replays_append (h : e.Replays benchmark R J) (h' : e.Replays benchmark R K) :
    e.Replays benchmark R (J ++ K) := by
  intro A b c o B hsplit hb
  rcases split_append hsplit with ⟨A', rfl, hA⟩ | ⟨J', hJ, -⟩
  · refine (h' A' b c o B hA hb).imp_right fun ⟨tree, ht, hc, hR⟩ => ?_
    exact ⟨tree, replayed_append_of_some J ht, hc, hR⟩
  · exact h A b c o J' hJ hb

theorem replays_mono (h : e.Replays benchmark R J) (hR : ∀ r, R r → R' r) : e.Replays benchmark R' J := by
  intro A b c o B hsplit hb
  refine (h A b c o B hsplit hb).imp_right fun ⟨tree, ht, hc, hr⟩ => ?_
  exact ⟨tree, ht, hc, hR _ hr⟩

/-- Events without a run of the benchmark. -/
theorem replays_of_silent (h : ∀ b c o, .ran b c o ∈ J → b.name ≠ benchmark) :
    e.Replays benchmark R J := by
  rintro A b c o B rfl hb
  exact (h b c o (by simp) hb).elim

namespace Explorer.Did

theorem refl (s : Session W) : e.Did b R [] s [] s where
  journal := by simp
  own := by simp
  replays := replays_nil
  placed := .slnil

theorem trans (h : e.Did b R P s J t) (h' : e.Did b R Q t K u) : e.Did b R (P ++ Q) s (J ++ K) u where
  journal := by rw [h'.journal, h.journal, List.append_assoc]
  own b' c o hmem := (List.mem_append.1 hmem).elim (h.own b' c o) (h'.own b' c o)
  replays := replays_append h.replays h'.replays
  placed := by
    rw [rows_append, List.map_append]
    exact h.placed.append h'.placed

theorem mono (h : e.Did b R P s J t) (hP : P <+ Q) : e.Did b R Q s J t :=
  ⟨h.journal, h.own, h.replays, h.placed.trans hP⟩

theorem weaken (h : e.Did b R P s J t) (hR : ∀ r, R r → R' r) : e.Did b R' P s J t :=
  ⟨h.journal, h.own, replays_mono h.replays hR, h.placed⟩

/-- Nothing that has a place was handed out before. -/
theorem before (h : e.Did b R [] s J t) (h' : e.Did b R P t K u) : e.Did b R P s (J ++ K) u :=
  h.trans h'

theorem rows_eq_nil (h : e.Did b R [] s J t) : rows J = [] :=
  List.map_eq_nil_iff.1 (List.sublist_nil.1 h.placed)

/-- Every row has one of the positions. -/
theorem position_mem (h : e.Did b R P s J t) {row : Row} (hrow : row ∈ rows J) : row.position ∈ P :=
  h.placed.subset (List.mem_map_of_mem hrow)

/-- Events that are neither runs nor rows. -/
theorem of_silent (h : t.journal = s.journal ++ J) (hrows : rows J = []) (hrun : ∀ b c o, .ran b c o ∉ J) :
    e.Did b R [] s J t where
  journal := h
  own b' c o hmem := (hrun b' c o hmem).elim
  replays := replays_of_silent fun b' c o hmem => (hrun b' c o hmem).elim
  placed := by simp [hrows]

theorem emitted {row : Row} (h : t.journal = s.journal ++ [.emitted row]) :
    e.Did b R [row.position] s [.emitted row] t where
  journal := h
  own := by simp
  replays := replays_of_silent (by simp)
  placed := by simp

end Explorer.Did

namespace RootReport.Becomes

variable {report r r' : RootReport} {new more : List Row}

theorem trans (h : report.Becomes r new) (h' : r.Becomes r' more) : report.Becomes r' (new ++ more) where
  root := h'.root.trans h.root
  pairs := by rw [h'.pairs, h.pairs, List.countP_append, Nat.add_assoc]
  missing := by rw [h'.missing, h.missing, List.countP_append, Nat.add_assoc]

end RootReport.Becomes

/-- A failure that ends the exploration anyhow. -/
theorem Fatal.ends {failure : Failure} (h : Fatal failure) : e.Ends failure := fun _ => h

end Events

section Measuring

variable (e : Explorer W) (b : Benchmark) {R : MethodId → Prop} (s : Session W)

/-- The failure is not that a forest is missing, unless the host lacks forests of its own. -/
def Explorer.Spares (failure : Failure) : Prop := e.host.BlamesNoForest → Spared failure

theorem say_did (text : String) {fail : Failure → Session W → Prop} :
    (say text).Yields s (fun _ t => e.Did b R [] s [] t) fail :=
  .of_ok (Exploring.on_say text s) (.of_silent (by simp) rfl (by simp))

theorem poll_did {fail : Failure → Session W → Prop} :
    e.poll.Yields s (fun _ t => ∃ J, e.Did b R [] s J t) fail :=
  .of_ok (e.on_poll s) ⟨[.polled _], .of_silent rfl rfl (by simp)⟩

/-- The runs of a block under the configuration of a tree replay that tree. -/
theorem did_of_block {t : Tree} {c : Configuration} {left : Nat} {J : List Event}
    {o : Except Failure (CompletedRun × Measurement)} {u : Session W}
    (hc : Replay.configurationOf t e.settings.resultsDir = .ok c) (hb : Block b c left J o) (hR : R t.root)
    (hu : u.journal = s.journal ++ .prepared t :: J) : e.Did b R [] s (.prepared t :: J) u where
  journal := hu
  own b' c' o' hmem := by
    have hran := hb.mem_cases (show .ran b' c' o' ∈ J by simpa using hmem)
    exact (show b' = b ∧ c' = c by simpa using hran).1
  replays A b' c' o' B hsplit _ := by
    rcases A with _ | ⟨ev, A⟩ <;> simp at hsplit
    obtain ⟨rfl, rfl⟩ := hsplit
    have hran := hb.mem_cases (List.mem_append_right A List.mem_cons_self)
    obtain ⟨rfl, rfl⟩ : b' = b ∧ c' = c := by simpa using hran
    exact .inr ⟨t, by simpa using hb.replayed_eq [] t, hc, hR⟩
  placed := by
    have : rows (.prepared t :: J) = [] := hb.row_free
    simp [this]

theorem measureTree_did {t : Tree} (hR : R t.root) : (e.measureTree b t).Yields s
    (fun _ u => ∃ J, e.Did b R [] s J u) (fun failure u => (∃ J, e.Did b R [] s J u) ∧ e.Spares failure) := by
  have hdid : ∃ J, e.Did b R [] s J ((e.measureTree b t).on s).2 := by
    have hspec := e.measureTree_spec b t s
    generalize (e.measureTree b t).on s = r at hspec
    obtain ⟨o, u⟩ := r
    have hwritten {v : Session W} (hs : v.journal = s.journal ++ [.prepared t]) :
        e.Did b R [] s [.prepared t] v := .of_silent hs rfl (by simp)
    cases hspec with
    | unprepared => exact ⟨[], .refl _⟩
    | remembered hc hm hs => exact ⟨_, hwritten hs.journal⟩
    | refused hc hr hs => exact ⟨_, hwritten hs.journal⟩
    | failed hc hn hr hb hs => exact ⟨_, did_of_block e b s hc hb hR hs.journal⟩
    | counted hc hn hr hb hs => exact ⟨_, did_of_block e b s hc hb hR hs.journal⟩
  constructor
  case ok =>
    intro m u h
    rwa [h] at hdid
  case error =>
    intro failure u h
    rw [h] at hdid
    exact ⟨hdid, fun he => (measureTree_spared he b t s).error failure u h⟩

theorem measureEnds_did {full : Tree} (hR : R full.root) : (e.measureEnds b full).Yields s
    (fun _ u => ∃ J, e.Did b R [] s J u) (fun failure u => (∃ J, e.Did b R [] s J u) ∧ e.Spares failure) := by
  unfold Explorer.measureEnds
  refine (measureTree_did e b s (t := .empty full.root) hR).bind fun empty t ⟨J, hJ⟩ => ?_
  refine (poll_did e b (R := R) t).bind fun answer u ⟨K, hK⟩ => ?_
  cases answer with
  | true =>
    exact .of_error (Exploring.on_bind_error (Exploring.on_throw _ u) _) ⟨⟨_, hJ.before hK⟩, fun _ => nofun⟩
  | false =>
    refine .bind ((measureTree_did e b u hR).mono_error fun failure v ⟨⟨L, hL⟩, hs⟩ => ?_)
      fun m v ⟨L, hL⟩ => .pure ?_
    · exact ⟨⟨_, (hJ.before hK).before hL⟩, hs⟩
    · exact ⟨_, (hJ.before hK).before hL⟩

theorem measurePair_did {parent child : Tree} (known : Option Measurement) (hparent : R parent.root)
    (hchild : R child.root) : (e.measurePair b parent known child).Yields s
    (fun _ u => ∃ J, e.Did b R [] s J u) (fun failure u => (∃ J, e.Did b R [] s J u) ∧ e.Spares failure) := by
  have hrest (m : Measurement) (t : Session W) (ht : ∃ J, e.Did b R [] s J t) :
      (e.measureTree b child >>= fun m' => pure (m, m')).Yields t (fun _ u => ∃ J, e.Did b R [] s J u)
        (fun failure u => (∃ J, e.Did b R [] s J u) ∧ e.Spares failure) := by
    obtain ⟨J, hJ⟩ := ht
    refine .bind ((measureTree_did e b t hchild).mono_error fun failure u ⟨⟨K, hK⟩, hs⟩ => ?_)
      fun m' u ⟨K, hK⟩ => .pure ?_
    · exact ⟨⟨_, hJ.before hK⟩, hs⟩
    · exact ⟨_, hJ.before hK⟩
  cases known with
  | some m => exact .after (Exploring.on_pure m s) (hrest m s ⟨[], .refl s⟩)
  | none => exact (measureTree_did e b s hparent).bind hrest

end Measuring

section Emission

variable (e : Explorer W) (b : Benchmark) (R : MethodId → Prop) {s : Session W}

theorem emit_did (row : Row) : (emit row).Yields s (fun _ t => e.Did b R [row.position] s [.emitted row] t)
    (fun failure t => e.Did b R [] s [] t ∧ Fatal failure) := by
  rcases on_emit row s with ⟨ds, ws, hm⟩ | ⟨f, ds, ws, hm⟩
  · exact .of_ok hm (.emitted rfl)
  · exact .of_error hm ⟨.of_silent (by simp) rfl (by simp), fatal_of_emit hm⟩

/-- A row for every decision that has none yet. -/
theorem emitMissing_did (root : MethodId) (ds : List Decision) : (Explorer.emitMissing b root ds).Yields s
    (fun n t => ∃ J, e.Did b R (positions b.name root ds) s J t ∧ (∀ row ∈ rows J, row.estimate = none) ∧
      (rows J).length = n)
    (fun failure t => (∃ J, e.Did b R (positions b.name root ds) s J t) ∧ Fatal failure) := by
  induction ds generalizing s with
  | nil => exact .pure ⟨[], .refl s, by simp, rfl⟩
  | cons d rest ih =>
    have hskip : positions b.name root rest <+ positions b.name root (d :: rest) := List.sublist_cons_self _ _
    unfold Explorer.emitMissing
    refine .after (Exploring.on_isExplored d.context s) ?_
    split
    · refine ih.mono (fun n t h => ?_) fun failure t h => ?_
      · obtain ⟨J, hJ, h⟩ := h
        exact ⟨J, hJ.mono hskip, h⟩
      · obtain ⟨⟨J, hJ⟩, h⟩ := h
        exact ⟨⟨J, hJ.mono hskip⟩, h⟩
    · let row : Row := ⟨b.name, root, d, none⟩
      have hjoin {t u : Session W} {J : List Event} (ht : e.Did b R [row.position] s [.emitted row] t)
          (hu : e.Did b R (positions b.name root rest) t J u) :
          e.Did b R (positions b.name root (d :: rest)) s ([.emitted row] ++ J) u := ht.trans hu
      refine .bind ((emit_did e b R row).mono_error fun failure t h => ?_) fun _ t ht => ?_
      · exact ⟨⟨[], h.1.mono (List.nil_sublist _)⟩, h.2⟩
      · refine .bind (ih.mono_error fun failure u h => ?_) fun n u h => .pure ?_
        · obtain ⟨⟨J, hJ⟩, h⟩ := h
          exact ⟨⟨_, hjoin ht hJ⟩, h⟩
        · obtain ⟨J, hJ, hnone, hlen⟩ := h
          refine ⟨_, hjoin ht hJ, ?_, ?_⟩
          · rw [rows_append, rows_emitted]
            simpa using ⟨rfl, hnone⟩
          · rw [rows_append, rows_emitted, List.length_append, hlen, List.length_singleton, Nat.add_comm]

theorem emitMeasured_did (root : MethodId) (d : Decision) (est : Estimate) :
    (Explorer.emitMeasured b root d est).Yields s
      (fun _ t => e.Did b R (positions b.name root [d]) s [.emitted ⟨b.name, root, d, some est⟩] t)
      (fun failure t => (∃ J, e.Did b R (positions b.name root [d]) s J t) ∧ Fatal failure) := by
  refine .bind ((emit_did e b R ⟨b.name, root, d, some est⟩).mono_error fun failure t h => ?_)
    fun _ t ht => .of_ok (Exploring.on_markExplored d.context t) ?_
  · exact ⟨⟨[], h.1.mono (List.nil_sublist _)⟩, h.2⟩
  · split
    · exact ht
    · exact ⟨ht.journal, ht.own, ht.replays, ht.placed⟩

end Emission

section Root

variable {e : Explorer W} {b : Benchmark} {f : Forest} {s t u : Session W}

/-- Growing a tree from a report to a report: rows for some of the decisions, in their order, which the
second report counts. -/
def Explorer.Grew (e : Explorer W) (b : Benchmark) (report : RootReport) (ds : List Decision) (s : Session W)
    (r : RootReport) (t : Session W) : Prop :=
  ∃ J, e.Did b (· = report.root) (positions b.name report.root ds) s J t ∧ report.Becomes r (rows J) ∧
    (r.state = .exhausted ∨ r.state = .aborted)

/-- A failure on the way, after rows for some of the decisions. -/
def Explorer.Broke (e : Explorer W) (b : Benchmark) (root : MethodId) (ds : List Decision) (s : Session W)
    (failure : Failure) (t : Session W) : Prop :=
  (∃ J, e.Did b (· = root) (positions b.name root ds) s J t) ∧ e.Ends failure

section Growing

variable {report report' r : RootReport} {root : MethodId} {ds ds' : List Decision} {J : List Event}
  {failure : Failure}

/-- Nothing is handed out any more. -/
theorem Explorer.Did.grew (h : e.Did b (· = report.root) [] s J t) (hr : report.Becomes r [])
    (hstate : r.state = .exhausted ∨ r.state = .aborted) : e.Grew b report ds s r t :=
  ⟨J, h.mono (List.nil_sublist _), h.rows_eq_nil ▸ hr, hstate⟩

theorem Explorer.Did.broke (h : e.Did b (· = root) [] s J t) (hends : e.Ends failure) :
    e.Broke b root ds s failure t :=
  ⟨⟨J, h.mono (List.nil_sublist _)⟩, hends⟩

namespace Explorer.Grew

/-- Rows for some decisions, and then the growing that goes on with the others. -/
theorem join (ds : List Decision) (hJ : e.Did b (· = report.root) (positions b.name report.root ds) s J t)
    (hr : report.Becomes report' (rows J)) (h : e.Grew b report' ds' t r u) :
    e.Grew b report (ds ++ ds') s r u := by
  obtain ⟨K, hK, hr', hstate⟩ := h
  rw [hr.root] at hK
  refine ⟨J ++ K, ?_, ?_, hstate⟩
  · rw [positions, List.map_append]
    exact hJ.trans hK
  · rw [rows_append]
    exact hr.trans hr'

theorem after (hJ : e.Did b (· = report.root) [] s J t) (h : e.Grew b report' ds t r u)
    (hr : report.Becomes report' []) : e.Grew b report ds s r u :=
  join [] hJ (hJ.rows_eq_nil ▸ hr) h

theorem mono (h : e.Grew b report ds s r t) (hds : ds <+ ds') : e.Grew b report ds' s r t := by
  obtain ⟨J, hJ, h⟩ := h
  exact ⟨J, hJ.mono (hds.map _), h⟩

end Explorer.Grew

namespace Explorer.Broke

theorem join (ds : List Decision) (hJ : e.Did b (· = root) (positions b.name root ds) s J t)
    (h : e.Broke b root ds' t failure u) : e.Broke b root (ds ++ ds') s failure u := by
  obtain ⟨⟨K, hK⟩, hends⟩ := h
  refine ⟨⟨J ++ K, ?_⟩, hends⟩
  rw [positions, List.map_append]
  exact hJ.trans hK

theorem after (hJ : e.Did b (· = root) [] s J t) (h : e.Broke b root ds t failure u) :
    e.Broke b root ds s failure u :=
  join [] hJ h

theorem mono (h : e.Broke b root ds s failure t) (hds : ds <+ ds') : e.Broke b root ds' s failure t := by
  obtain ⟨⟨J, hJ⟩, h⟩ := h
  exact ⟨⟨J, hJ.mono (hds.map _)⟩, h⟩

end Explorer.Broke

theorem RootReport.Becomes.same (hroot : r.root = report.root) (hpairs : r.pairs = report.pairs)
    (hmissing : r.missing = report.missing) : report.Becomes r [] :=
  ⟨hroot, hpairs, hmissing⟩

end Growing

theorem giveUp_did (e : Explorer W) (ds : List Decision) (report : RootReport) (fault : RunFault) :
    (Explorer.giveUp b ds report fault).Yields s (e.Grew b report ds s) (e.Broke b report.root ds s) := by
  unfold Explorer.giveUp
  refine (say_did e b (R := (· = report.root)) s _).bind fun _ t ht => ?_
  refine .bind ((emitMissing_did e b (· = report.root) report.root ds).mono_error fun failure u h => ?_)
    fun n u h => .pure ?_
  · obtain ⟨⟨J, hJ⟩, h⟩ := h
    exact ⟨⟨_, ht.before hJ⟩, h.ends⟩
  · obtain ⟨J, hJ, hnone, hlen⟩ := h
    refine ⟨_, ht.before hJ, ⟨rfl, ?_, ?_⟩, .inl rfl⟩
    · have hzero : (rows J).countP (·.estimate.isSome) = 0 :=
        List.countP_eq_zero.2 fun row hrow => by simp [hnone row hrow]
      simp [hzero]
    · have hall : (rows J).countP (·.estimate.isNone) = (rows J).length :=
        List.countP_eq_length.2 fun row hrow => by simp [hnone row hrow]
      simp [hall, hlen]

/-- A tree and the tree that it grows into have one root. -/
theorem root_of_insert {t t' : Tree} {d : Decision} (h : t.insert d = .ok t') : t'.root = t.root := by
  rw [Tree.insert] at h
  split at h
  · cases h
  · exact Tree.root_of_ofDecisions h

/-- Something without rows goes before. -/
theorem Explorer.Did.yields {report : RootReport} {ds : List Decision} {J : List Event} {x : Exploring W RootReport}
    (hJ : e.Did b (· = report.root) [] s J t)
    (h : x.Yields t (e.Grew b report ds t) (e.Broke b report.root ds t)) :
    x.Yields t (e.Grew b report ds s) (e.Broke b report.root ds s) :=
  h.mono (fun _ _ hr => hr.after hJ (.same rfl rfl rfl)) fun _ _ hf => hf.after hJ

theorem cutShort_did (ds : List Decision) (report : RootReport) {failure : Failure} (hs : e.Spares failure) :
    (Explorer.cutShort b ds report failure).Yields s (e.Grew b report ds s) (e.Broke b report.root ds s) := by
  have hstill : e.Did b (· = report.root) [] s [] s := .refl s
  cases failure with
  | aborted point => exact .pure (hstill.grew (.same rfl rfl rfl) (.inr rfl))
  | run fault code => exact giveUp_did e ds report fault
  | forest fault => exact .throw (hstill.broke fun he => (hs he fault rfl).elim)
  | _ => exact .throw (hstill.broke (Fatal.ends rfl))

/-- A pair is recorded by one row, and the tree grows on as `hgrow` has it. -/
theorem record_did {report : RootReport} {d : Decision} {rest : List Decision} {child : Tree}
    {parentRun childRun : Measurement}
    (hgrow : ∀ u, (e.grow b f child (some childRun) { report with pairs := report.pairs + 1 } rest).Yields u
      (e.Grew b { report with pairs := report.pairs + 1 } rest u) (e.Broke b report.root rest u)) :
    (e.record b f report d rest child parentRun childRun).Yields s
      (e.Grew b report (d :: rest) s) (e.Broke b report.root (d :: rest) s) := by
  have hemits (est : Estimate) := emitMeasured_did e b (· = report.root) report.root d est (s := s)
  obtain ⟨next, t, hrecording, hnext⟩ := e.record_recording b f report d rest child parentRun childRun s
  refine .of_on hnext ?_
  cases hrecording with
  | unestimated hest =>
    exact .throw ((Explorer.Did.refl s).broke (failsFatally_estimate e f _ d _ _ _ hest).ends)
  | unwritten _ hemit =>
    obtain ⟨hdid, hfatal⟩ := (hemits _).error _ t hemit
    have hbroke : e.Broke b report.root [d] s _ t := ⟨hdid, hfatal.ends⟩
    exact .throw (hbroke.mono (.cons_cons d (List.nil_sublist rest)))
  | @written est _ _ _ _ hemit hsay =>
    have hrow := (hemits est).ok _ _ hemit
    have hsaid : e.Did b (· = report.root) [] _ [] t := (say_did e b _ _).lands hsay
    have hone : report.Becomes { report with pairs := report.pairs + 1 }
        (rows [.emitted ⟨b.name, report.root, d, some est⟩]) := ⟨rfl, rfl, rfl⟩
    refine (hgrow t).mono (fun r u h => ?_) fun failure u h => ?_
    · exact .join [d] hrow hone (h.after hsaid (.same rfl rfl rfl))
    · exact .join [d] hrow (h.after hsaid)

/-- Growing a tree. By induction on the decisions that are left; the rows that follow are for these. -/
theorem grow_did {tree : Tree} {report : RootReport} (htree : tree.root = report.root)
    (known : Option Measurement) (ds : List Decision) : (e.grow b f tree known report ds).Yields s
      (e.Grew b report ds s) (e.Broke b report.root ds s) := by
  induction ds generalizing tree known report s with
  | nil => exact .pure ((Explorer.Did.refl s).grew (.same rfl rfl rfl) (.inl rfl))
  | cons d rest ih =>
    obtain ⟨answer, t, hpoll, next, u, hturn, hnext⟩ := e.grow_turn b f report d rest tree known s
    obtain ⟨J, hJ⟩ : ∃ J, e.Did b (· = report.root) [] s J t := (poll_did e b s).lands hpoll
    refine .of_on hnext ?_
    cases hturn with
    | aborted => exact .pure (hJ.grew (.same rfl rfl rfl) (.inr rfl))
    | refused _ => exact .throw (hJ.broke (Fatal.ends rfl))
    | passed hinsert _ =>
      have hskip : rest <+ d :: rest := List.sublist_cons_self d rest
      have hroot : _ = { report with skipped := report.skipped + 1 }.root := (root_of_insert hinsert).trans htree
      refine (ih hroot none).mono (fun r v h => ?_) fun failure v h => ?_
      · exact (h.after hJ (.same rfl rfl rfl)).mono hskip
      · exact (h.after hJ).mono hskip
    | unpaired hinsert _ hpair =>
      have hroot := (root_of_insert hinsert).trans htree
      obtain ⟨⟨K, hK⟩, hs⟩ := (measurePair_did e b t (R := (· = report.root)) known htree hroot).error _ u hpair
      exact (hJ.before hK).yields (cutShort_did (d :: rest) report hs)
    | paired hinsert _ hpair =>
      have hroot := (root_of_insert hinsert).trans htree
      obtain ⟨K, hK⟩ := (measurePair_did e b t (R := (· = report.root)) known htree hroot).ok _ u hpair
      have hroot : _ = { report with pairs := report.pairs + 1 }.root := hroot
      exact (hJ.before hK).yields (record_did fun v => ih hroot (some _))

/-- What the report of a root tells of its rows. -/
structure RootReport.Tells (r : RootReport) (own : List Row) : Prop where
  pairs : r.pairs = own.countP (·.estimate.isSome)
  missing : r.missing = own.countP (·.estimate.isNone)
  /-- Only a root whose tree was grown has rows. -/
  idle : r.state ≠ .exhausted → r.state ≠ .aborted → own = []

/-- The root was visited, and the visit came to an end of its own. -/
def RootReport.IsSettled (r : RootReport) : Prop := r.state = .exhausted ∨ r.state = .shortCircuited

theorem RootReport.Becomes.tells {root : MethodId} {state : RootState} {r : RootReport} {new : List Row}
    (h : RootReport.Becomes { root, state } r new)
    (hidle : r.state ≠ .exhausted → r.state ≠ .aborted → new = []) : r.Tells new where
  pairs := h.pairs.trans (Nat.zero_add _)
  missing := h.missing.trans (Nat.zero_add _)
  idle := hidle

/-- Every row has data or has none. -/
theorem RootReport.Tells.length_eq {r : RootReport} {own : List Row} (h : r.Tells own) :
    own.length = r.pairs + r.missing := by
  rw [h.pairs, h.missing, List.length_eq_countP_add_countP (p := fun row : Row => row.estimate.isSome)]
  congr 2
  funext row
  cases row.estimate <;> rfl

/-- What the visit of one root comes to: rows for decisions of its tree, and a report that tells them. -/
structure Explorer.Visited (e : Explorer W) (b : Benchmark) (f : Forest) (root : MethodId) (s : Session W)
    (J : List Event) (r : RootReport) (t : Session W) : Prop where
  did : e.Did b (· = root) (positions b.name root (f.decisionsOf root)) s J t
  root : r.root = root
  tells : r.Tells (rows J)
  state : r.IsSettled ∨ r.state = .aborted

/-- A tree that was grown for all decisions of the root. -/
theorem Explorer.Grew.visited {root : MethodId} {r : RootReport}
    (h : e.Grew b { root, state := .measuring } (f.decisionsOf root) s r t) :
    ∃ J, e.Visited b f root s J r t := by
  obtain ⟨J, hJ, hr, hstate⟩ := h
  refine ⟨J, hJ, hr.root, hr.tells fun h h' => (hstate.elim h h').elim, ?_⟩
  exact hstate.imp_left .inl

/-- A visit that comes to an end without a row. -/
theorem Explorer.Did.visited {root : MethodId} {r : RootReport} {J : List Event}
    (h : e.Did b (· = root) [] s J t) (hr : RootReport.Becomes { root, state := .measuring } r [])
    (hstate : r.IsSettled ∨ r.state = .aborted) : ∃ J, e.Visited b f root s J r t :=
  ⟨J, h.mono (List.nil_sublist _), hr.root, h.rows_eq_nil ▸ hr.tells fun _ _ => rfl, hstate⟩

theorem exploreTree_did {full : Tree} (hfull : f.tree full.root = .ok full) :
    (e.exploreTree b f full).Yields s (fun r t => ∃ J, e.Visited b f full.root s J r t)
      (e.Broke b full.root (f.decisionsOf full.root) s) := by
  have hds : full.decisions = f.decisionsOf full.root := by rw [Forest.decisionsOf, hfull]
  have hvisited {r : RootReport} {t : Session W}
      (h : e.Grew b { root := full.root, state := .measuring } full.decisions s r t) :
      ∃ J, e.Visited b f full.root s J r t := by
    rw [hds] at h
    exact h.visited
  have hends {t : Tree} (ht : t.root = full.root) := measureEnds_did e b s (R := (· = full.root)) ht
  obtain ⟨next, t, hentry, hnext⟩ := e.exploreTree_entry b f full s
  rw [← hds]
  refine .of_on hnext ?_
  cases hentry with
  | unmeasured hon =>
    obtain ⟨⟨J, hJ⟩, hs⟩ := (hends rfl).error _ t hon
    exact (hJ.yields (cutShort_did _ { root := full.root, state := .measuring } hs)).mono (fun _ _ => hvisited)
      fun _ _ h => h
  | unjudged hon hnoise =>
    obtain ⟨J, hJ⟩ := (hends rfl).ok _ t hon
    exact .throw (hJ.broke (failsFatally_noise e _ _ _ hnoise).ends)
  | shortCircuited hon _ hsay =>
    obtain ⟨J, hJ⟩ := (hends rfl).ok _ _ hon
    exact .pure ((hJ.before ((say_did e b _ _).lands hsay)).visited (.same rfl rfl rfl) (.inl (.inr rfl)))
  | @grown empty _ _ hon _ =>
    obtain ⟨J, hJ⟩ := (hends rfl).ok _ t hon
    have hroot : (Tree.empty full.root).root = ({ root := full.root, state := .measuring } : RootReport).root := rfl
    exact (hJ.yields (grow_did hroot (some empty) full.decisions)).mono (fun _ _ => hvisited) fun _ _ h => h

theorem exploreRoot_did (root : MethodId) : (e.exploreRoot b f root).Yields s
    (fun r t => ∃ J, e.Visited b f root s J r t) (e.Broke b root (f.decisionsOf root) s) := by
  have hstill : e.Did b (· = root) [] s [] s := .refl s
  apply Explorer.Opening.yields
  case hrefused => exact fun _ _ => hstill.broke (Fatal.ends rfl)
  case hbare => exact fun _ _ _ => hstill.visited (.same rfl rfl rfl) (.inl (.inr rfl))
  case hexplored => exact fun _ _ _ _ => hstill.visited (.same rfl rfl rfl) (.inl (.inl rfl))
  case hentered =>
    intro full hf _
    obtain rfl := Forest.root_of_tree hf
    exact exploreTree_did hf

end Root

end Exploration

end InlineImpact
