import InlineImpact.Proofs.Exploration.Schedule

/-!
Exploring one root. The tree grows along the decisions of the full tree, and the run that a child is
compared with is that of the tree before it, whatever was skipped on the way. `exploreRoot_ends` is the
main result: every row is paired, and a root that ends with nothing skipped and nothing missing has one
row for each of its decisions, in order.
-/
namespace InlineImpact.Exploration

open Relation (ReflTransGen)
open Journal
open Exploring (Ends)

variable {W : Type}

/-- The root's decisions were all measured anew, and none is without data. -/
def RootReport.Complete (r : RootReport) : Prop := r.state = .exhausted ∧ r.skipped = 0 ∧ r.missing = 0

/-- The trees that belong to one of the roots. -/
def Among (roots : List MethodId) (root : MethodId) (_size : Nat) : Prop := root ∈ roots

/-- The trees that may have been run when the one with `i` decisions is the next to grow: those of the
roots visited before, and of this root those that it grew out of, and the full one. -/
def Due (visited : List MethodId) (full : Tree) (i : Nat) (root : MethodId) (size : Nat) : Prop :=
  root ∈ visited ∨ root = full.root ∧ (size ≤ i ∨ size = full.size)

section Assertions

variable (e : Explorer W)

/-- The measurement was taken by a run of the benchmark that replayed the tree. -/
def Explorer.Measured (J : List Event) (b : Benchmark) (t : Tree) (m : Measurement) : Prop :=
  ∃ A, e.TakenAfter A J b t m

/-- The row is that of the decision number `i`, and compares the runs of the trees up to and with it. -/
def Explorer.Compares (J : List Event) (b : Benchmark) (f : Forest) (full : Tree) (i : Nat)
    (row : Dataset.Row) (parent child : Measurement) : Prop :=
  ∃ d est, full.decisions[i]? = some d ∧ e.Measured J b (full.upTo i) parent ∧
    e.Measured J b (full.upTo (i + 1)) child ∧ e.estimate f full.root d child parent = .ok est ∧
    row = ⟨b.name, full.root, d, some est⟩

/-- The row is that of the decision number `i`. -/
def Explorer.Records (J : List Event) (b : Benchmark) (f : Forest) (full : Tree) (i : Nat)
    (row : Dataset.Row) : Prop :=
  ∃ parent child, e.Compares J b f full i row parent child

/-- The rows that were handed out between two sessions are those of the decisions from number `i` on. -/
def Explorer.Covers (b : Benchmark) (f : Forest) (full : Tree) (i : Nat) (s t : Session W) : Prop :=
  ∃ rows, t.rows = s.rows ++ rows ∧ (NoClash t.journal →
    List.Forall₂ (e.Records t.journal b f full) (List.range' i (full.size - i)) rows)

/-- What growing a tree of the first `i` decisions comes to. -/
structure Grown (bs : List Benchmark) (done : List String) (visited : List MethodId) (b : Benchmark)
    (f : Forest) (full : Tree) (i : Nat) (s : Session W) (report r : RootReport) (t : Session W) :
    Prop where
  scheduled : Scheduled e bs done b f (Among (full.root :: visited)) t
  root : r.root = report.root
  skipped : report.skipped ≤ r.skipped
  covers : r.Complete → e.Covers b f full i s t

end Assertions

section Journals

variable {e : Explorer W} {b : Benchmark} {f : Forest} {t full : Tree} {m : Measurement}
  {J : List Event} {i : Nat} {row : Dataset.Row} {s u v : Session W}

theorem measured_append (h : e.Measured J b t m) (K : List Event) : e.Measured (J ++ K) b t m :=
  h.imp fun _ hA => takenAfter_append hA K

theorem records_append (h : e.Records J b f full i row) (K : List Event) :
    e.Records (J ++ K) b f full i row := by
  obtain ⟨parent, child, d, est, hd, hp, hc, hest, hrow⟩ := h
  exact ⟨parent, child, d, est, hd, measured_append hp K, measured_append hc K, hest, hrow⟩

/-- No decision is left. -/
theorem covers_nil (h : full.size ≤ i) (hs : u.rows = s.rows) : e.Covers b f full i s u := by
  refine ⟨[], by simp [hs], fun _ => ?_⟩
  rw [Nat.sub_eq_zero_of_le h]
  exact .nil

/-- One row more. -/
theorem covers_cons (hi : i < full.size) (hu : u.rows = s.rows ++ [row])
    (hrow : NoClash v.journal → e.Records v.journal b f full i row)
    (h : e.Covers b f full (i + 1) u v) : e.Covers b f full i s v := by
  obtain ⟨rows, hv, hrows⟩ := h
  refine ⟨row :: rows, by rw [hv, hu, List.append_assoc, List.singleton_append], fun hn => ?_⟩
  rw [show full.size - i = full.size - (i + 1) + 1 by omega, List.range'_succ]
  exact .cons (hrow hn) (hrows hn)

theorem covers_congr (hs : u.rows = s.rows) (h : e.Covers b f full i u v) : e.Covers b f full i s v := by
  obtain ⟨rows, hv, hrows⟩ := h
  exact ⟨rows, by rw [hv, hs], hrows⟩

section Growing

variable {bs : List Benchmark} {done : List String} {visited : List MethodId} {report r : RootReport}

/-- A decision that was skipped shows in the report, so the root is not complete. -/
theorem Grown.of_skipped
    (h : Grown e bs done visited b f full (i + 1) u { report with skipped := report.skipped + 1 } r v) :
    Grown e bs done visited b f full i s report r v := by
  have hskipped : report.skipped + 1 ≤ r.skipped := h.skipped
  refine ⟨h.scheduled, h.root, Nat.le_of_succ_le hskipped, fun hc => ?_⟩
  have := hc.2.1
  omega

/-- A decision that was measured has its row. -/
theorem Grown.of_measured (hi : i < full.size)
    (h : Grown e bs done visited b f full (i + 1) u { report with pairs := report.pairs + 1 } r v)
    (hu : u.rows = s.rows ++ [row]) (hJ : J <+: v.journal)
    (hrow : NoClash J → e.Records J b f full i row) : Grown e bs done visited b f full i s report r v := by
  refine ⟨h.scheduled, h.root, h.skipped, fun hc => covers_cons hi hu (fun hn => ?_) (h.covers hc)⟩
  obtain ⟨K, hK⟩ := hJ
  rw [← hK] at hn ⊢
  exact records_append (hrow (noClash_of_append hn)) K

/-- The rows before are the same. -/
theorem Grown.congr (h : Grown e bs done visited b f full i u report r v) (hs : u.rows = s.rows) :
    Grown e bs done visited b f full i s report r v :=
  ⟨h.scheduled, h.root, h.skipped, fun hc => covers_congr hs (h.covers hc)⟩

end Growing

end Journals

section Emission

variable {e : Explorer W} {bs : List Benchmark} {done : List String} {b : Benchmark} {f : Forest}
  {Q : MethodId → Nat → Prop} {s : Session W}

namespace Scheduled

theorem emit (h : Scheduled e bs done b f Q s) (row : Dataset.Row)
    (hrow : ∀ est, row.estimate = some est → NoClash s.journal → e.Paired bs s.journal row est) :
    (emit row).Ends s (fun _ t => Scheduled e bs done b f Q t ∧ t.rows = s.rows ++ [row])
      (Scheduled e bs done b f Q) := by
  rcases on_emit row s with ⟨ds, ws, hm⟩ | ⟨failure, ds, ws, hm⟩
  · refine .of_ok hm ⟨⟨h.remembering.add (K := [.emitted row]) rfl rfl (by simp)
      (not_countedAfter_singleton · _), allPaired_emitted h.paired hrow, ?_,
      reported_append h.reported _, h.prepared_append (by simp)⟩, rows_of_journal (.emitted row) rfl⟩
    refine launched_append h.launched fun A b' c o B hA => ?_
    rcases A with _ | ⟨ev, A⟩ <;> simp at hA
  · exact .of_error hm ⟨h.remembering.congr rfl rfl, h.paired, h.launched, h.reported, h.prepared⟩

theorem emitMeasured (h : Scheduled e bs done b f Q s) {root : MethodId} {d : Decision} {est : Estimate}
    (hrow : NoClash s.journal → e.Paired bs s.journal ⟨b.name, root, d, some est⟩ est) :
    (Explorer.emitMeasured b root d est).Ends s
      (fun _ t => Scheduled e bs done b f Q t ∧ t.rows = s.rows ++ [⟨b.name, root, d, some est⟩])
      (Scheduled e bs done b f Q) := by
  have hemit := h.emit ⟨b.name, root, d, some est⟩ fun est' hest hn => by
    obtain rfl := Option.some.inj hest
    exact hrow hn
  refine hemit.bind fun _ t _ ⟨ht, hr⟩ => ?_
  refine .of_ok (Exploring.on_markExplored d.context t) ?_
  split
  · exact ⟨ht, hr⟩
  · exact ⟨⟨ht.remembering.congr rfl rfl, ht.paired, ht.launched, ht.reported, ht.prepared⟩, hr⟩

/-- A decision that is not explored is missing for sure. -/
theorem emitMissing (h : Scheduled e bs done b f Q s) (root : MethodId) (ds : List Decision) :
    (Explorer.emitMissing b root ds).Ends s (fun n t => Scheduled e bs done b f Q t ∧
      ((∃ d ∈ ds, d.context ∉ s.explored) → 0 < n)) (Scheduled e bs done b f Q) := by
  induction ds generalizing s with
  | nil =>
    refine .pure ⟨h, ?_⟩
    rintro ⟨d, hd, -⟩
    cases hd
  | cons d rest ih =>
    unfold Explorer.emitMissing
    refine .after (Exploring.on_isExplored d.context s) ?_
    split
    · rename_i hd
      refine (ih h).mono ?_ fun _ _ _ ht => ht
      rintro n t - ⟨ht, hn⟩
      refine ⟨ht, ?_⟩
      rintro ⟨d', hd', hne⟩
      refine hn ⟨d', (List.mem_cons.1 hd').resolve_left ?_, hne⟩
      rintro rfl
      exact hne (by simpa using hd)
    · refine (h.emit ⟨b.name, root, d, none⟩ fun est hest => by cases hest).bind ?_
      rintro _ t - ⟨ht, -⟩
      refine (ih ht).bind ?_
      rintro n u - ⟨hu, -⟩
      exact .pure ⟨hu, fun _ => Nat.succ_pos n⟩

theorem giveUp (h : Scheduled e bs done b f Q s) {ds : List Decision} (report : RootReport)
    (fault : RunFault) (hds : ∃ d ∈ ds, d.context ∉ s.explored) :
    (Explorer.giveUp b ds report fault).Ends s (fun r t => Scheduled e bs done b f Q t ∧
      r.root = report.root ∧ r.skipped = report.skipped ∧ 0 < r.missing)
      (Scheduled e bs done b f Q) := by
  refine (h.say _).bind fun _ t hsay ht => ?_
  have hds : ∃ d ∈ ds, d.context ∉ t.explored := by
    rwa [Quiet.run_explored ((e.say_within _).steps hsay)]
  refine (ht.emitMissing report.root ds).bind fun n u _ ⟨hu, hn⟩ => ?_
  exact .pure ⟨hu, rfl, rfl, Nat.add_pos_right _ (hn hds)⟩

/-- A root that is cut short is not complete. -/
theorem cutShort (h : Scheduled e bs done b f Q s) {ds : List Decision} (report : RootReport)
    (hds : ∃ d ∈ ds, d.context ∉ s.explored) (failure : Failure) :
    (Explorer.cutShort b ds report failure).Ends s (fun r t => Scheduled e bs done b f Q t ∧
      r.root = report.root ∧ report.skipped ≤ r.skipped ∧ ¬r.Complete) (Scheduled e bs done b f Q) := by
  cases failure with
  | aborted point => exact .pure ⟨h, rfl, le_rfl, fun hc => by cases hc.1⟩
  | run fault code =>
    refine (h.giveUp report fault hds).mono ?_ fun _ _ _ ht => ht
    rintro r t - ⟨ht, hroot, hskipped, hmissing⟩
    exact ⟨ht, hroot, hskipped.ge, fun hc => hmissing.ne' hc.2.2⟩
  | _ => exact .throw h

end Scheduled

end Emission

section Root

variable {e : Explorer W} {bs : List Benchmark} {done : List String} {b : Benchmark} {f : Forest}
  {visited : List MethodId} {full : Tree} {i : Nat} {s : Session W}

theorem due_upTo {k : Nat} (h : k ≤ i) : Due visited full i (full.upTo k).root (full.upTo k).size :=
  .inr ⟨rfl, .inl (by rw [Tree.size_upTo]; omega)⟩

theorem Due.succ {root : MethodId} {k : Nat} (h : Due visited full i root k) :
    Due visited full (i + 1) root k :=
  h.imp_right fun ⟨hroot, h⟩ => ⟨hroot, h.imp_left Nat.le_succ_of_le⟩

theorem Due.among {root : MethodId} {k : Nat} (h : Due visited full i root k) :
    Among (full.root :: visited) root k :=
  h.elim (List.mem_cons_of_mem _) fun ⟨hroot, _⟩ => hroot ▸ List.mem_cons_self

theorem offers_upTo (hf : f.tree full.root = .ok full) (k : Nat) : f.Offers (full.upTo k) :=
  ⟨full, k, hf, rfl⟩

/-- When the child is measured, the parent's measurement is known, and no child was due before. -/
theorem measurePair_ends (hf : f.tree full.root = .ok full) (known : Option Measurement)
    (hk : ∀ m, known = some m → s.Knows e b (full.upTo i) m)
    (h : Scheduled e bs done b f (Due visited full i) s) :
    (e.measurePair b (full.upTo i) known (full.upTo (i + 1))).Ends s
      (fun runs t => Scheduled e bs done b f (Due visited full (i + 1)) t ∧
        t.Knows e b (full.upTo (i + 1)) runs.2 ∧
        ∃ u, Scheduled e bs done b f (Due visited full i) u ∧ u.Knows e b (full.upTo i) runs.1 ∧
          ReflTransGen (Quiet e) u t)
      (Scheduled e bs done b f (Due visited full (i + 1))) := by
  have hrest : ∀ parent u, Scheduled e bs done b f (Due visited full i) u →
      u.Knows e b (full.upTo i) parent →
      (e.measureTree b (full.upTo (i + 1)) >>= fun child => pure (parent, child)).Ends u
        (fun runs t => Scheduled e bs done b f (Due visited full (i + 1)) t ∧
          t.Knows e b (full.upTo (i + 1)) runs.2 ∧
          ∃ u, Scheduled e bs done b f (Due visited full i) u ∧ u.Knows e b (full.upTo i) runs.1 ∧
            ReflTransGen (Quiet e) u t)
        (Scheduled e bs done b f (Due visited full (i + 1))) := by
    intro parent u hu hparent
    have hu' : Scheduled e bs done b f (Due visited full (i + 1)) u := hu.mono fun _ _ => Due.succ
    refine (hu'.measureTree (offers_upTo hf (i + 1)) (due_upTo le_rfl)).bind fun child t ht hchild => ?_
    exact .pure ⟨hchild.1, hchild.2, u, hu, hparent, (e.measureTree_within b _).steps ht⟩
  cases known with
  | some m => exact .after (Exploring.on_pure m s) (hrest m s h (hk m rfl))
  | none =>
    have hparent := h.measureTree (offers_upTo hf i) (due_upTo le_rfl)
    refine Ends.bind (hparent.mono (fun _ _ _ hm => hm) fun _ _ _ ht => ht.mono fun _ _ => Due.succ)
      fun parent u _ hu => hrest parent u hu.1 hu.2

variable (hb : b ∈ bs) (hdone : b.name ∉ done) (hf : f.tree full.root = .ok full)

include hdone hf

/-- What a session knows of a tree that the root grew out of was measured for that tree. -/
theorem measured_of_knows {Q : MethodId → Nat → Prop} {k : Nat} {m : Measurement}
    (h : Scheduled e bs done b f Q s) (hk : s.Knows e b (full.upTo k) m) (hn : NoClash s.journal) :
    e.Measured s.journal b (full.upTo k) m :=
  h.exists_takenAfter hdone hk (offers_upTo hf k) hn

include hb

/-- A parent that was known before the child was due makes a pair with it. -/
theorem paired_of_knows {t u : Session W} {d : Decision} {parent child : Measurement} {est : Estimate}
    (hv : full.root ∉ visited) (hd : full.decisions[i]? = some d)
    (hu : Scheduled e bs done b f (Due visited full i) u) (hparent : u.Knows e b (full.upTo i) parent)
    (ht : Scheduled e bs done b f (Due visited full (i + 1)) t)
    (hchild : t.Knows e b (full.upTo (i + 1)) child) (hut : ReflTransGen (Quiet e) u t)
    (hest : e.estimate f full.root d child parent = .ok est) (hn : NoClash t.journal) :
    e.Paired bs t.journal ⟨b.name, full.root, d, some est⟩ est := by
  obtain ⟨K, hj⟩ := Quiet.run_journal_le hut
  obtain ⟨hi, -⟩ := List.getElem?_eq_some_iff.1 hd
  have hnu : NoClash u.journal := noClash_of_append (hj ▸ hn)
  obtain ⟨P, hP⟩ := measured_of_knows hdone hf hu hparent hnu
  obtain ⟨C, hC⟩ := measured_of_knows hdone hf ht hchild hn
  refine ⟨b, f, full, i, parent, child, P, C, hb, rfl, ht.reported, hf, hd,
    Tree.upTo_isProperParentOf hi, full.upTo_isSubtreeOf i, full.upTo_isSubtreeOf (i + 1),
    hj ▸ takenAfter_append hP K, hC, hest, ?_⟩
  by_cases hfull : full.upTo (i + 1) = full
  · exact .inl hfull
  refine .inr fun A c o B hsplit hr hc => ?_
  rw [← hj] at hsplit
  rcases split_append hsplit with ⟨A', rfl, -⟩ | ⟨J', hJ, -⟩
  · exact takenAfter_append hP A'
  -- no run of the child was due as long as the parent was not known
  rcases hu.launched A b c o J' hJ with hold | ⟨-, rfl | ⟨t', hr', -, -, hold | ⟨-, hsize⟩⟩⟩
  · exact (hdone hold).elim
  · exact (Replay.name_ne_full (Replay.name_of_configurationOf hc)).elim
  · obtain rfl : full.upTo (i + 1) = t' := Option.some.inj (hr.symm.trans hr')
    exact (hv hold).elim
  · obtain rfl : full.upTo (i + 1) = t' := Option.some.inj (hr.symm.trans hr')
    rw [Tree.size_upTo] at hsize
    have hsize : i + 1 = full.size := by
      have hi : i < full.size := hi
      omega
    exact (hfull (hsize ▸ full.upTo_size)).elim

/-- The row of a pair is handed out, and the child's measurement is known from then on. -/
theorem emitMeasured_ends {t u : Session W} {root : MethodId} {d : Decision}
    {parent child : Measurement} {est : Estimate} (hroot : root = full.root) (hv : full.root ∉ visited)
    (hd : full.decisions[i]? = some d)
    (hu : Scheduled e bs done b f (Due visited full i) u) (hparent : u.Knows e b (full.upTo i) parent)
    (ht : Scheduled e bs done b f (Due visited full (i + 1)) t)
    (hchild : t.Knows e b (full.upTo (i + 1)) child) (hut : ReflTransGen (Quiet e) u t)
    (hest : e.estimate f root d child parent = .ok est) (hnew : d.context ∉ t.explored) :
    (Explorer.emitMeasured b root d est).Ends t
      (fun _ v => Scheduled e bs done b f (Due visited full (i + 1)) v ∧
        v.Knows e b (full.upTo (i + 1)) child ∧ ∃ row, v.rows = t.rows ++ [row] ∧
          (NoClash v.journal → e.Records v.journal b f full i row))
      (Scheduled e bs done b f (Due visited full (i + 1))) := by
  subst hroot
  have hemit := ht.emitMeasured (paired_of_knows hb hdone hf hv hd hu hparent ht hchild hut hest)
  refine hemit.mono (fun _ v hon ⟨hsv, hrows⟩ => ?_) fun _ _ _ h => h
  have hstep : ReflTransGen (Step e fun _ _ => True) t v := .single (by
    have := Step.measured (e := e) (p := fun _ _ => True) t b full.root d est hnew trivial
    rwa [hon] at this)
  have hparent := (hparent.still hut).later hstep
  have hchild := hchild.later hstep
  refine ⟨hsv, hchild, _, hrows, fun hn => ⟨parent, child, d, est, hd, ?_, ?_, hest, rfl⟩⟩
  · exact measured_of_knows hdone hf hsv hparent hn
  · exact measured_of_knows hdone hf hsv hchild hn

/-- A pair is recorded, and the tree grows on as `hgrow` has it. -/
theorem record_ends (hv : full.root ∉ visited) {d : Decision} (hd : full.decisions[i]? = some d)
    {rest : List Decision} {report : RootReport} (hroot : report.root = full.root) {t u : Session W}
    {parent child : Measurement} (hu : Scheduled e bs done b f (Due visited full i) u)
    (hparent : u.Knows e b (full.upTo i) parent) (ht : Scheduled e bs done b f (Due visited full (i + 1)) t)
    (hchild : t.Knows e b (full.upTo (i + 1)) child) (hut : ReflTransGen (Quiet e) u t)
    (hnew : d.context ∉ t.explored)
    (hgrow : ∀ w, Scheduled e bs done b f (Due visited full (i + 1)) w → w.Knows e b (full.upTo (i + 1)) child →
      (e.grow b f (full.upTo (i + 1)) (some child) { report with pairs := report.pairs + 1 } rest).Ends w
        (Grown e bs done visited b f full (i + 1) w { report with pairs := report.pairs + 1 })
        (Scheduled e bs done b f (Among (full.root :: visited)))) :
    (e.record b f report d rest (full.upTo (i + 1)) parent child).Ends t
      (Grown e bs done visited b f full i t report) (Scheduled e bs done b f (Among (full.root :: visited))) := by
  obtain ⟨hi, -⟩ := List.getElem?_eq_some_iff.1 hd
  obtain ⟨next, w, hrecording, hnext⟩ := e.record_recording b f report d rest (full.upTo (i + 1)) parent child t
  have hemits {est : Estimate} (hest : e.estimate f report.root d child parent = .ok est) :=
    emitMeasured_ends hb hdone hf hroot hv hd hu hparent ht hchild hut hest hnew
  refine .of_on hnext ?_
  cases hrecording with
  | unestimated _ => exact .throw (ht.mono fun _ _ => Due.among)
  | unwritten hest hemit => exact .throw (((hemits hest).error _ w hemit).mono fun _ _ => Due.among)
  | written hest hemit hsay =>
    obtain ⟨hv, hknown, row, hrow, hrecords⟩ := (hemits hest).ok _ _ hemit
    have hsaid := (e.say_within _).steps hsay
    refine (hgrow w ((hv.say _).lands hsay) (hknown.still hsaid)).mono (fun r z hz hr => ?_) fun _ _ _ h => h
    have hwz := (e.grow_within (p := fun _ _ => True) b f _ _ _ trivial rest).steps hz
    refine hr.of_measured hi ?_ (Step.run_journal_le ((Quiet.run_steps hsaid).trans hwz)) hrecords
    rw [Quiet.run_rows_eq hsaid, hrow]

/-- Growing the tree along the decisions that are left. By induction on these; the invariant is that only
trees that were due have been run, and that the parent's measurement is known if it is at hand. -/
theorem grow_ends (hv : full.root ∉ visited) {ds : List Decision} (hds : full.decisions.drop i = ds)
    {known : Option Measurement} (hk : ∀ m, known = some m → s.Knows e b (full.upTo i) m)
    {report : RootReport} (hroot : report.root = full.root)
    (h : Scheduled e bs done b f (Due visited full i) s) :
    (e.grow b f (full.upTo i) known report ds).Ends s
      (Grown e bs done visited b f full i s report)
      (Scheduled e bs done b f (Among (full.root :: visited))) := by
  induction ds generalizing i known report s with
  | nil =>
    have hi : full.size ≤ i := List.drop_eq_nil_iff.1 hds
    exact .pure ⟨h.mono fun _ _ => Due.among, rfl, le_rfl, fun _ => covers_nil hi rfl⟩
  | cons d rest ih =>
    obtain ⟨hd, hrest, hinsert⟩ := Tree.of_drop_eq_cons hds
    obtain ⟨answer, t, hpoll, next, u, hturn, hnext⟩ := e.grow_turn b f report d rest (full.upTo i) known s
    have hst : ReflTransGen (Quiet e) s t := e.poll_within.steps hpoll
    have ht : Scheduled e bs done b f (Due visited full i) t := h.poll.lands hpoll
    have hpair := measurePair_ends hf known (fun m hm => (hk m hm).still hst) ht
    have hwithin := e.measurePair_within b (full.upTo i) known (full.upTo (i + 1))
    refine .of_on hnext ?_
    cases hturn with
    | aborted => exact .pure ⟨ht.mono fun _ _ => Due.among, rfl, le_rfl, fun hc => by cases hc.1⟩
    | refused hrefused => cases hrefused.symm.trans hinsert
    | passed hchild _ =>
      obtain rfl := Tree.eq_upTo_of_insert hd hchild
      -- the parent's measurement is forgotten, and the root is not complete any more
      have hroot : { report with skipped := report.skipped + 1 }.root = full.root := hroot
      exact (ih hrest (fun _ hm => by cases hm) hroot (ht.mono fun _ _ => Due.succ)).mono
        (fun r v _ hr => hr.of_skipped) fun _ _ _ hv => hv
    | unpaired hchild hnew hon =>
      obtain rfl := Tree.eq_upTo_of_insert hd hchild
      have hu : Scheduled e bs done b f (Among (full.root :: visited)) u :=
        (hpair.error _ u hon).mono fun _ _ => Due.among
      have hnew : d.context ∉ u.explored := Quiet.run_explored (hwithin.steps hon) ▸ hnew
      refine (hu.cutShort report ⟨d, List.mem_cons_self, hnew⟩ _).mono ?_ fun _ _ _ hv => hv
      rintro r v - ⟨hv, hroot, hskipped, hincomplete⟩
      exact ⟨hv, hroot, hskipped, fun hc => (hincomplete hc).elim⟩
    | @paired _ _ _ parent child hchild hnew hon =>
      obtain rfl := Tree.eq_upTo_of_insert hd hchild
      obtain ⟨hu, hknown, v, hv', hparent, hvu⟩ := hpair.ok _ u hon
      have hnew : d.context ∉ u.explored := Quiet.run_explored (hwithin.steps hon) ▸ hnew
      have hroot' : { report with pairs := report.pairs + 1 }.root = full.root := hroot
      have hrecord := record_ends hb hdone hf hv hd hroot hv' hparent hu hknown hvu hnew fun w hw hkw =>
        have hk : ∀ m, some child = some m → w.Knows e b (full.upTo (i + 1)) m := fun m hm =>
          Option.some.inj hm ▸ hkw
        ih hrest hk hroot' hw
      refine hrecord.mono (fun r z _ hr => hr.congr ?_) fun _ _ _ hz => hz
      exact Quiet.run_rows_eq (hst.trans (hwithin.steps hon))

omit hb hdone in
/-- The empty tree's measurement is known when the full tree's is. -/
theorem measureEnds_ends (h : Scheduled e bs done b f (Among visited) s) :
    (e.measureEnds b full).Ends s
      (fun runs t => Scheduled e bs done b f (Due visited full 0) t ∧ t.Knows e b (full.upTo 0) runs.1)
      (Scheduled e bs done b f (Due visited full 0)) := by
  have hs : Scheduled e bs done b f (Due visited full 0) s := h.mono fun _ _ => .inl
  have hempty := hs.measureTree (offers_upTo hf 0) (due_upTo le_rfl)
  rw [Tree.upTo_zero] at hempty
  unfold Explorer.measureEnds
  refine hempty.bind fun empty t _ ht => ?_
  refine ht.1.poll.bind fun answer u hpoll hu => ?_
  have htu := e.poll_within.steps hpoll
  cases answer with
  | true => exact .of_error (Exploring.on_bind_error (Exploring.on_throw _ u) _) hu
  | false =>
    have hfull := hu.measureTree (full.upTo_size ▸ offers_upTo hf full.size) (.inr ⟨rfl, .inr rfl⟩)
    refine hfull.bind fun all v hv hall => .pure ⟨hall.1, ?_⟩
    exact (ht.2.still htu).still ((e.measureTree_within b full).steps hv)

theorem exploreTree_ends (hv : full.root ∉ visited) (hnew : ∃ d ∈ full.decisions, d.context ∉ s.explored)
    (h : Scheduled e bs done b f (Among visited) s) :
    (e.exploreTree b f full).Ends s (fun r t =>
        Scheduled e bs done b f (Among (full.root :: visited)) t ∧ r.root = full.root ∧
          (r.Complete → e.Covers b f full 0 s t))
      (Scheduled e bs done b f (Among (full.root :: visited))) := by
  have hwithin := e.measureEnds_within b full
  have hspec := measureEnds_ends hf h
  obtain ⟨next, t, hentry, hnext⟩ := e.exploreTree_entry b f full s
  refine .of_on hnext ?_
  cases hentry with
  | unmeasured hends =>
    have ht : Scheduled e bs done b f (Among (full.root :: visited)) t :=
      (hspec.error _ t hends).mono fun _ _ => Due.among
    have hnew : ∃ d ∈ full.decisions, d.context ∉ t.explored := by
      rwa [Quiet.run_explored (hwithin.steps hends)]
    refine (ht.cutShort _ hnew _).mono ?_ fun _ _ _ hu => hu
    rintro r u - ⟨hu, hroot, -, hincomplete⟩
    exact ⟨hu, hroot, fun hc => (hincomplete hc).elim⟩
  | unjudged hends _ => exact .throw ((hspec.ok _ t hends).1.mono fun _ _ => Due.among)
  | shortCircuited hends _ hsay =>
    have ht := ((hspec.ok _ _ hends).1.say _).lands hsay
    exact .pure ⟨ht.mono fun _ _ => Due.among, rfl, fun hc => by cases hc.1⟩
  | @grown empty _ _ hends _ =>
    obtain ⟨ht, hempty⟩ := hspec.ok _ t hends
    have hk : ∀ m, some empty = some m → t.Knows e b (full.upTo 0) m := fun m hm => Option.some.inj hm ▸ hempty
    have hroot : ({ root := full.root, state := .measuring } : RootReport).root = full.root := rfl
    have hds : full.decisions.drop 0 = full.decisions := rfl
    have hgrow := grow_ends hb hdone hf hv hds hk hroot ht
    rw [Tree.upTo_zero] at hgrow
    exact hgrow.mono (fun r u _ hr => ⟨hr.scheduled, hr.root, fun hc =>
      covers_congr (Quiet.run_rows_eq (hwithin.steps hends)) (hr.covers hc)⟩) fun _ _ _ hu => hu

omit hf in
/-- A root is explored along its tree. If it ends with nothing skipped and nothing missing, then there is
one row for each decision, in order, and each is paired. -/
theorem exploreRoot_ends {root : MethodId} (hv : root ∉ visited)
    (h : Scheduled e bs done b f (Among visited) s) :
    (e.exploreRoot b f root).Ends s (fun r t =>
        Scheduled e bs done b f (Among (root :: visited)) t ∧ r.root = root ∧
          (r.Complete → ∃ full, f.tree root = .ok full ∧ 0 < full.size ∧ e.Covers b f full 0 s t))
      (Scheduled e bs done b f (Among (root :: visited))) := by
  have hend : Scheduled e bs done b f (Among (root :: visited)) s :=
    h.mono fun _ _ => List.mem_cons_of_mem _
  apply Ends.of_yields
  apply Explorer.Opening.yields
  case hrefused => exact fun _ _ => hend
  case hbare => exact fun _ _ _ => ⟨hend, rfl, fun hc => by cases hc.1⟩
  case hexplored => exact fun full _ hne _ => ⟨hend, rfl, fun hc => absurd hc.2.1 (List.length_pos_iff.2 hne).ne'⟩
  case hentered =>
    intro full hf hnew
    obtain rfl := Forest.root_of_tree hf
    obtain ⟨d, hd, -⟩ := id hnew
    have hsize : 0 < full.size := List.length_pos_of_mem hd
    exact ((exploreTree_ends hb hdone hf hv hnew h).mono (fun r t _ hr =>
      ⟨hr.1, hr.2.1, fun hc => ⟨full, hf, hsize, hr.2.2 hc⟩⟩) fun _ _ _ ht => ht).yields

end Root

end InlineImpact.Exploration
