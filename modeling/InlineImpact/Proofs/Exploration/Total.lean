import InlineImpact.Proofs.Exploration.Pairing
import InlineImpact.Proofs.Text.Utf8
import InlineImpact.Proofs.Workspace
import Mathlib

/-!
The whole exploration. Behind every row with an estimate there are two runs, of a tree and of its proper
parent, and in exact numbers the differences that the rows of a complete root tell add up to that
between its full and its empty tree. `explore_ends` is the invariant from one benchmark to the next.
-/
namespace InlineImpact

/-- The number that a double stands for; what is no number counts as zero. -/
def exactValue (x : Float) : ℚ :=
  (Decimal.Binary.ofFloat? x).elim 0 fun b =>
    (if b.negative then -1 else 1) * b.mantissa * 2 ^ b.exponent

/-- The mean of the samples, not rounded. -/
def Measurement.exactMean (m : Measurement) : ℚ := (m.samples.map exactValue).sum / m.size

/-- A difference of two means is estimated if there are samples on both sides. -/
theorem Estimate.delta_of_ofRuns {child parent : Measurement} {callee root : Option MethodId}
    {rootCalls : Option Int} {resamples minSamples seed : Int} {est : Estimate}
    (h : ofRuns child parent callee root rootCalls resamples minSamples seed = .ok est)
    (hchild : child.samples ≠ []) (hparent : parent.samples ≠ []) :
    est.delta = some (child.mean - parent.mean) := by
  unfold ofRuns at h
  have hsize : ¬(child.size = 0 ∨ parent.size = 0) := by
    simpa [Measurement.size] using ⟨hchild, hparent⟩
  rw [if_neg hsize] at h
  obtain ⟨deviation, -, h⟩ := exists_of_bind_eq_ok h
  split at h
  · exact (Except.ok.inj h) ▸ rfl
  · exact (Except.ok.inj h) ▸ rfl
  · cases h

namespace Exploration

open Relation (ReflTransGen)
open Journal
open Exploring (Ends)

variable {W : Type}

/-- The rows that were handed out for a root of a benchmark. -/
def Session.rowsOf (s : Session W) (benchmark : String) (root : MethodId) : List Dataset.Row :=
  s.rows.filter fun row => row.benchmark = benchmark ∧ row.root = root

section Assertions

variable (e : Explorer W)

/-- A report that calls the root complete is right: there is one row for each decision of its tree. -/
def Explorer.Told (s : Session W) (b : Benchmark) (f : Forest) (r : RootReport) : Prop :=
  r.Complete → NoClash s.journal → ∃ full, f.tree r.root = .ok full ∧ 0 < full.size ∧
    List.Forall₂ (e.Records s.journal b f full) (List.range full.size) (s.rowsOf b.name r.root)

/-- The invariant of an exploration between two benchmarks; `done` are the names of those it had. -/
structure Standing (bs : List Benchmark) (done : List String) (s : Session W) : Prop where
  remembering : Remembering e s
  paired : e.AllPaired bs s.journal
  launched : ∀ b c o, .ran b c o ∈ s.journal → b.name ∈ done
  prepared : ∀ t, .prepared t ∈ s.journal → e.Offered done s.journal t
  rows : ∀ row ∈ s.rows, row.benchmark ∈ done

end Assertions

section Rows

variable {e : Explorer W} {p : String → MethodId → Prop} {s t : Session W} {benchmark : String}
  {root : MethodId} {new : List Dataset.Row}

/-- Rows of others. -/
theorem rowsOf_append_of_ne (ht : t.rows = s.rows ++ new)
    (h : ∀ row ∈ new, row.benchmark = benchmark → row.root ≠ root) :
    t.rowsOf benchmark root = s.rowsOf benchmark root := by
  have hnew : new.filter (fun row => row.benchmark = benchmark ∧ row.root = root) = [] := by
    rw [List.filter_eq_nil_iff]
    simpa using h
  rw [Session.rowsOf, ht, List.filter_append, hnew, ← Session.rowsOf, List.append_nil]

/-- The first rows of the root. -/
theorem rowsOf_append_of_eq (ht : t.rows = s.rows ++ new)
    (hs : ∀ row ∈ s.rows, row.benchmark = benchmark → row.root ≠ root)
    (h : ∀ row ∈ new, row.benchmark = benchmark ∧ row.root = root) : t.rowsOf benchmark root = new := by
  have hold : s.rowsOf benchmark root = [] := by
    rw [Session.rowsOf, List.filter_eq_nil_iff]
    simpa using hs
  have hnew : new.filter (fun row => row.benchmark = benchmark ∧ row.root = root) = new := by
    rw [List.filter_eq_self]
    simpa using h
  rw [Session.rowsOf, ht, List.filter_append, hnew, ← Session.rowsOf, hold, List.nil_append]

theorem told_of_steps {b : Benchmark} {f : Forest} {r : RootReport} (ht : e.Told s b f r)
    (h : ReflTransGen (Step e p) s t) (hp : ¬p b.name r.root) : e.Told t b f r := by
  intro hc hn
  obtain ⟨K, hK⟩ := Step.run_journal_le h
  obtain ⟨new, hrows, hnew⟩ := Step.run_rows h
  have hsame : t.rowsOf b.name r.root = s.rowsOf b.name r.root :=
    rowsOf_append_of_ne hrows fun row hrow hb hr => by
      have := hnew row hrow
      rw [hb, hr] at this
      exact hp this
  rw [hsame]
  rw [← hK] at hn ⊢
  obtain ⟨full, hf, hsize, hall⟩ := ht hc (noClash_of_append hn)
  exact ⟨full, hf, hsize, hall.imp fun _ _ hrow => records_append hrow K⟩

/-- The rows between two sessions are those of the root if there were none before. -/
theorem told_of_covers {b : Benchmark} {f : Forest} {full : Tree} {r : RootReport}
    (hf : f.tree r.root = .ok full) (hsize : 0 < full.size)
    (hs : ∀ row ∈ s.rows, row.benchmark = b.name → row.root ≠ r.root)
    (h : ReflTransGen (Step e fun n root => n = b.name ∧ root = r.root) s t)
    (hcovers : e.Covers b f full 0 s t) : e.Told t b f r := by
  intro _ hn
  obtain ⟨rows, hrows, hall⟩ := hcovers
  obtain ⟨new, hrows', hnew⟩ := Step.run_rows h
  obtain rfl : rows = new := List.append_cancel_left (hrows.symm.trans hrows')
  rw [rowsOf_append_of_eq hrows hs hnew]
  exact ⟨full, hf, hsize, List.range_eq_range' ▸ hall hn⟩

end Rows

section Benchmarks

variable {e : Explorer W} {bs : List Benchmark} {done : List String} {b : Benchmark} {f : Forest}
  {s : Session W}

section Roots

variable (hb : b ∈ bs) (hdone : b.name ∉ done)

include hb hdone

/-- A root that has no rows yet. -/
theorem exploreRoot_told {root : MethodId} {visited : List MethodId} (hv : root ∉ visited)
    (hrows : ∀ row ∈ s.rows, row.benchmark = b.name → row.root ∈ visited)
    (h : Scheduled e bs done b f (Among visited) s) :
    (e.exploreRoot b f root).Ends s (fun r t =>
        Scheduled e bs done b f (Among (root :: visited)) t ∧ r.root = root ∧ e.Told t b f r ∧
          ∀ row ∈ t.rows, row.benchmark = b.name → row.root ∈ root :: visited)
      (Scheduled e bs done b f (Among (root :: visited))) := by
  refine (exploreRoot_ends hb hdone hv h).mono (fun r t ht ⟨hs, hr, hcovers⟩ => ?_) fun _ _ _ h => h
  subst hr
  have hst := (e.exploreRoot_within (p := fun n root => n = b.name ∧ root = r.root) b f r.root
    ⟨rfl, rfl⟩).steps ht
  refine ⟨hs, rfl, fun hc => ?_, fun row hrow hn => ?_⟩
  · obtain ⟨full, hf, hsize, hcovers⟩ := hcovers hc
    have hnone : ∀ row ∈ s.rows, row.benchmark = b.name → row.root ≠ r.root :=
      fun row hrow hn hr => hv (hr ▸ hrows row hrow hn)
    exact told_of_covers hf hsize hnone hst hcovers hc
  · obtain ⟨new, ht, hnew⟩ := Step.run_rows hst
    rcases List.mem_append.1 (ht ▸ hrow) with hrow | hrow
    · exact .tail _ (hrows row hrow hn)
    · exact (hnew row hrow).2 ▸ .head _

/-- No root is visited twice, so what was told of a root stays true. -/
theorem exploreRoots_ends {roots visited : List MethodId} (hroots : roots.Nodup)
    (hv : ∀ root ∈ roots, root ∉ visited)
    (hrows : ∀ row ∈ s.rows, row.benchmark = b.name → row.root ∈ visited)
    (h : Scheduled e bs done b f (Among visited) s) :
    (e.exploreRoots b f roots).Ends s (fun rs t =>
        (∃ Q, Scheduled e bs done b f Q t) ∧ ∀ r ∈ rs, e.Told t b f r)
      (fun t => ∃ Q, Scheduled e bs done b f Q t) := by
  induction roots generalizing visited s with
  | nil => exact .pure ⟨⟨_, h⟩, by simp⟩
  | cons root rest ih =>
    obtain ⟨hroot, hrest⟩ := List.nodup_cons.1 hroots
    obtain ⟨hvroot, hvrest⟩ := List.forall_mem_cons.1 hv
    have hqueued {u : Session W} {r : RootReport} (hr : e.Told u b f r) :
        ∀ r' ∈ r :: rest.map Explorer.queued, e.Told u b f r' := by
      simp only [List.forall_mem_cons, List.forall_mem_map]
      exact ⟨hr, fun _ _ hc => by cases hc.1⟩
    obtain ⟨answer, t, hpoll, next, u, hleg, hnext⟩ := e.exploreRoots_leg b f root rest s
    have ht : Scheduled e bs done b f (Among visited) t := h.poll.lands hpoll
    have htrows : t.rows = s.rows := Quiet.run_rows_eq (e.poll_within.steps hpoll)
    have htold := exploreRoot_told hb hdone hvroot (htrows ▸ hrows) ht
    refine .of_on hnext ?_
    cases hleg with
    | aborted => exact .pure ⟨⟨_, ht⟩, hqueued fun hc => by cases hc.1⟩
    | failed hvisit => exact .throw ⟨_, htold.error _ _ hvisit⟩
    | cut hvisit =>
      obtain ⟨hu, -, hr, -⟩ := htold.ok _ _ hvisit
      exact .pure ⟨⟨_, hu⟩, hqueued hr⟩
    | @visited _ _ r hvisit =>
      obtain ⟨hu, rfl, hr, hold⟩ := htold.ok _ _ hvisit
      have hvrest : ∀ root' ∈ rest, root' ∉ r.root :: visited := fun root' hmem hv =>
        (List.mem_cons.1 hv).elim (fun heq => hroot (heq ▸ hmem)) (hvrest root' hmem)
      refine (ih hrest hvrest hold hu).bind fun rs v hv ⟨hsv, hrs⟩ => .pure ⟨hsv, ?_⟩
      have huv := (e.exploreRoots_within (p := fun n root => n = b.name ∧ root ∈ rest) b f rest
        fun _ hmem => ⟨rfl, hmem⟩).steps hv
      exact List.forall_mem_cons.2 ⟨told_of_steps hr huv fun hp => hroot hp.2, hrs⟩

theorem exploreForest_ends (hf : f.roots.Nodup) (counts : MethodId → Option Int)
    (hrows : ∀ row ∈ s.rows, row.benchmark ∈ done) (h : Scheduled e bs done b f (Among []) s) :
    (e.exploreForest b f counts).Ends s (fun r t =>
        (∃ Q, Scheduled e bs done b f Q t) ∧ r.benchmark = b.name ∧ ∀ root ∈ r.roots, e.Told t b f root)
      (fun t => ∃ Q, Scheduled e bs done b f Q t) := by
  unfold Explorer.exploreForest
  refine (h.say _).bind fun _ t hsay ht => ?_
  have hold : ∀ row ∈ t.rows, row.benchmark = b.name → row.root ∈ [] := fun row hrow hn => by
    rw [Quiet.run_rows_eq ((e.say_within _).steps hsay)] at hrow
    exact (hdone (hn ▸ hrows row hrow)).elim
  refine (exploreRoots_ends hb hdone (Forest.nodup_rootsByCalls hf counts) (by simp) hold ht).bind
    fun rs u _ ⟨hu, hrs⟩ => .pure ⟨hu, rfl, ?_⟩
  simp only [List.forall_mem_append, List.forall_mem_map]
  exact ⟨fun _ _ hc => (by cases hc.1), hrs⟩

end Roots

namespace Standing

theorem fresh (e : Explorer W) (bs : List Benchmark) (world : W) (workspace : Workspace)
    (dataset : Option Dataset.Writer) : Standing e bs [] (Session.fresh world workspace dataset) where
  remembering := .fresh world workspace dataset
  paired A row est B h := by simp [Session.fresh] at h
  launched := by simp [Session.fresh]
  prepared := by simp [Session.fresh]
  rows := by simp [Session.rows, Session.fresh]

variable {done' : List String} {t : Session W} {K : List Event}

/-- Events without a row. -/
theorem add (h : Standing e bs done s) (ht : Remembering e t) (hj : t.journal = s.journal ++ K)
    (hrow : K.filterMap Event.row? = []) (hdone : done ⊆ done')
    (hK : ∀ b c o, .ran b c o ∈ K → b.name ∈ done') (hprepared : ∀ t, .prepared t ∉ K) :
    Standing e bs done' t where
  remembering := ht
  paired := hj ▸ allPaired_append h.paired hrow
  launched b c o hmem := by
    rw [hj, List.mem_append] at hmem
    exact hmem.elim (fun hold => hdone (h.launched b c o hold)) (hK b c o)
  prepared t' hmem := by
    rw [hj] at hmem ⊢
    have hmem := (List.mem_append.1 hmem).resolve_right (hprepared t')
    obtain ⟨b, f, hb, hf, ht'⟩ := h.prepared t' hmem
    exact ⟨b, f, hdone hb, reported_append hf K, ht'⟩
  rows row hmem := by
    have : t.rows = s.rows := by simp [Session.rows, hj, hrow]
    exact hdone (h.rows row (this ▸ hmem))

theorem say (h : Standing e bs done s) (text : String) {fail : Session W → Prop} :
    (Exploration.say text).Ends s (fun _ t => Standing e bs done t) fail :=
  .of_ok (Exploring.on_say text s)
    (h.add (K := []) (h.remembering.quiet (.say s text)) (by simp) rfl (fun _ h => h) (by simp)
      (by simp))

theorem poll (h : Standing e bs done s) {fail : Session W → Prop} :
    e.poll.Ends s (fun _ t => Standing e bs done t) fail :=
  .of_ok (e.on_poll s) (h.add (K := [.polled _]) (h.remembering.quiet (.poll s)) rfl rfl
    (fun _ h => h) (by simp) (by simp))

/-- The full model's run reports the forest, and nothing of it was run yet. -/
theorem fullForest (h : Standing e bs done s) : (e.fullForest b).Ends s
    (fun r t => r.1.roots.Nodup ∧ Scheduled e bs done b r.1 (Among []) t ∧ t.rows = s.rows)
    (Standing e bs (b.name :: done)) := by
  have hspec := e.fullForest_spec b s
  have hrem : Remembering e ((e.fullForest b).on s).2 := h.remembering.fullForest
  rcases ho : (e.fullForest b).on s with ⟨o, t⟩
  rw [ho] at hspec hrem
  have hblock {J o'} (hJ : Block b e.fullModel e.settings.maxRetries.toNat J o') :
      (∀ b' c o, .ran b' c o ∈ J → b' = b ∧ c = e.fullModel) ∧ ∀ t, .prepared t ∉ J :=
    ⟨fun b' c o hmem => by simpa using hJ.mem_cases hmem, fun t hmem => by simpa using hJ.mem_cases hmem⟩
  have hfail {J o'} (hJ : Block b e.fullModel e.settings.maxRetries.toNat J o')
      (hj : t.journal = s.journal ++ J) : Standing e bs (b.name :: done) t :=
    h.add hrem hj hJ.row_free (List.subset_cons_self _ _) (fun b' c o hmem =>
      ((hblock hJ).1 b' c o hmem).1 ▸ .head _) (hblock hJ).2
  cases hspec with
  | refused f hr =>
    exact .of_error ho (h.add (K := []) hrem (by simp) rfl (List.subset_cons_self _ _) (by simp)
      (by simp))
  | failed hb hs => exact .of_error ho (hfail hb hs.journal)
  | unreported hb hs => exact .of_error ho (hfail hb hs.journal)
  | @captured J run m f ws _ hb hf hs =>
    have hj : t.journal = s.journal ++ (J ++ [.reported f]) := hs.journal
    have hrow : (J ++ [Event.reported f]).filterMap Event.row? = [] := by simp [hb.row_free, Event.row?]
    have hrows : t.rows = s.rows := by
      rw [Session.rows, hj, List.filterMap_append, hrow, List.append_nil]
      rfl
    refine .of_ok ho ⟨Forest.nodup_roots_of_load hf, ⟨hrem, ?_, ?_, ?_, ?_⟩, hrows⟩
    · exact hj ▸ allPaired_append h.paired hrow
    · intro A b' c o B hsplit
      rw [hj] at hsplit
      rcases split_append hsplit with ⟨A', -, hA⟩ | ⟨J', hJ, -⟩
      · have hmem : .ran b' c o ∈ J ++ [.reported f] := hA ▸ by simp
        have hmem : .ran b' c o ∈ J := by simpa using hmem
        obtain ⟨rfl, rfl⟩ := (hblock hb).1 b' c o hmem
        exact .inr ⟨rfl, .inl rfl⟩
      · exact .inl (h.launched b' c o (hJ ▸ by simp))
    · obtain ⟨K, rfl⟩ := hb.exists_counted rfl
      exact ⟨s.journal ++ K, run, m, [], by simp [hj]⟩
    · intro t' hmem
      rw [hj] at hmem ⊢
      have hold : .prepared t' ∈ s.journal := by simpa [(hblock hb).2 t'] using hmem
      exact .inr (offered_append (h.prepared t' hold) _)

end Standing

theorem Scheduled.standing {Q : MethodId → Nat → Prop} (h : Scheduled e bs done b f Q s)
    (hrows : ∀ row ∈ s.rows, row.benchmark ∈ b.name :: done) : Standing e bs (b.name :: done) s where
  remembering := h.remembering
  paired := h.paired
  launched b' c o hmem := by
    obtain ⟨A, B, hsplit⟩ := List.append_of_mem hmem
    rcases h.launched A b' c o B hsplit with hold | ⟨rfl, -⟩
    · exact .tail _ hold
    · exact .head _
  prepared t hmem := by
    rcases h.prepared t hmem with ht | ⟨b', f', hb', hf', ht⟩
    · exact ⟨b, f, .head _, h.reported, ht⟩
    · exact ⟨b', f', .tail _ hb', hf', ht⟩
  rows := hrows

end Benchmarks

section Sums

variable (e : Explorer W)

/-- The row tells how the runs of a tree and of its proper parent differ, in exact numbers by `δ`. -/
def Explorer.Tells (J : List Event) (b : Benchmark) (f : Forest) (full : Tree) (i : Nat)
    (row : Dataset.Row) (δ : ℚ) : Prop :=
  ∃ parent child, e.Compares J b f full i row parent child ∧ δ = child.exactMean - parent.exactMean ∧
    (child.samples ≠ [] → parent.samples ≠ [] →
      row.estimate.bind (·.delta) = some (child.mean - parent.mean))

variable {e : Explorer W} {bs : List Benchmark} {s : Session W} {b : Benchmark} {f : Forest}

end Sums

section Lone

/-- Trees of one root have names of their own already by their sizes. -/
theorem noClash_of_offers {f : Forest} {full : Tree} {J : List Event} (hf : f.trees = [full])
    (h : ∀ t, .prepared t ∈ J → f.Offers t) : NoClash J := by
  have hroot {t : Tree} (ht : f.Offers t) : t.root = full.root := by
    obtain ⟨full', k, htree, -⟩ := ht
    obtain ⟨hmem, hroot⟩ := Forest.mem_trees_of_tree htree
    rw [hf, List.mem_singleton] at hmem
    rw [← hroot, hmem]
  intro t t' ht ht' hname
  have hsame := (hroot (h t ht)).trans (hroot (h t' ht')).symm
  cases hn : Replay.name t with
  | ok n =>
    have hsize := Replay.size_eq_of_name_eq hsame hn (hname ▸ hn)
    rw [(h t ht).eq_of_size (h t' ht') hsame hsize]
  | error failure =>
    rw [Replay.content_of_name hn, Replay.content_of_name (hname ▸ hn)]

/-- A benchmark whose forest has one root with one decision. -/
def lone : Benchmark := { name := "lone", path := "/lone" }

def loneLog : String :=
  "<InlineForest><Methods><Method><Token>1</Token><Inlines><Inline><MethodToken>1</MethodToken>" ++
    "<Offset>1</Offset></Inline></Inlines></Method></Methods></InlineForest>"

def loneFiles : Workspace := ⟨[], [([], .directory), (["log"], .file loneLog.toUTF8 false)]⟩

/-- Every run counts, and leaves the log. -/
def loneExplorer : Explorer Unit where
  host := {
    probe _ := .ok ()
    run _ _ _ _ _ w := (⟨.ok ⟨100, "/log", "/events", []⟩, loneFiles, ""⟩, w)
    load _ _ _ w := (.ok { samples := [1.0] }, w)
    poll w := (false, w) }
  settings := {}

theorem exists_forest_of_lone : ∃ f full, Forest.load loneFiles "/log" = .ok f ∧ f.trees = [full] := by
  have hread : loneFiles.read "/log" = .ok loneLog.toUTF8 :=
    Workspace.read_rooted rfl "log" (by decide) (by decide) (by decide) rfl
  have hone : (Forest.read (Text.unifyLineEnds loneLog.toList)).toOption.map (·.trees.length) =
      some 1 := by decide +kernel
  cases hf : Forest.read (Text.unifyLineEnds loneLog.toList) with
  | error failure => simp [hf, Except.toOption] at hone
  | ok f =>
    obtain ⟨full, hfull⟩ : ∃ full, f.trees = [full] :=
      List.length_eq_one_iff.1 (by simpa [hf, Except.toOption] using hone)
    refine ⟨f, full, ?_, hfull⟩
    simp only [Forest.load, hread, Text.decodeLossy_toUTF8, hf]
    rfl

theorem fullForest_of_lone {f : Forest} (hf : Forest.load loneFiles "/log" = .ok f)
    (s : Session Unit) : ∃ m t, (loneExplorer.fullForest lone).on s = (.ok (f, m), t) := by
  obtain ⟨run, m, u, hattempt, hlog, hws⟩ : ∃ run m u,
      (loneExplorer.attempt lone loneExplorer.fullModel).on s = (.ok (run, m), u) ∧
        run.logFile = "/log" ∧ u.workspace = loneFiles :=
    ⟨_, _, ((loneExplorer.attempt lone loneExplorer.fullModel).on s).2, rfl, rfl, rfl⟩
  exact ⟨m, _, loneExplorer.on_fullForest_of_attempt (by decide) rfl hattempt (by rw [hws, hlog, hf])⟩

/-- Only trees that the one forest offers are written out. -/
theorem noClash_of_lone :
    NoClash ((loneExplorer.explore [lone]).on (Session.fresh () loneFiles none)).2.journal := by
  obtain ⟨f, full, hf, hone⟩ := exists_forest_of_lone
  let Offering (s : Session Unit) : Prop := ∀ t, .prepared t ∈ s.journal → f.Offers t
  have hoffers {Q s} (h : Scheduled loneExplorer [lone] [] lone f Q s) : Offering s := fun t ht =>
    (h.prepared t ht).resolve_right (by rintro ⟨_, _, hmem, _⟩; cases hmem)
  have hnone {s} (h : Standing loneExplorer [lone] [] s) : Offering s := fun t ht => by
    obtain ⟨_, _, hmem, _⟩ := h.prepared t ht
    cases hmem
  have hbenchmark {s} (hs : Standing loneExplorer [lone] [] s) :
      (loneExplorer.exploreBenchmark lone).Ends s (fun _ => Offering) Offering := by
    unfold Explorer.exploreBenchmark
    obtain ⟨m, t, hfull⟩ := fullForest_of_lone hf s
    obtain ⟨hnodup, ht, hrows⟩ := hs.fullForest.ok _ _ hfull
    refine .after hfull ?_
    exact (exploreForest_ends (by simp) (by simp) hnodup _ (hrows ▸ hs.rows) ht).mono
      (fun _ _ _ ⟨⟨_, hu⟩, _⟩ => hoffers hu) fun _ _ _ ⟨_, hu⟩ => hoffers hu
  have hfresh := Standing.fresh loneExplorer [lone] () loneFiles none
  have hclosed {s t report last} (hs : Standing loneExplorer [lone] [] s)
      (hclosing : loneExplorer.Closing lone s report last t) : Offering t := by
    cases hclosing with
    | explored hexplore => exact (hbenchmark hs).ok _ _ hexplore
    | skipped hexplore _ hsay | stopped hexplore _ hsay =>
      have hoffering := (hbenchmark hs).error _ _ hexplore
      rw [Exploring.eq_of_say hsay]
      exact hoffering
  have hall : (loneExplorer.exploreAll [] [lone]).Ends (Session.fresh () loneFiles none)
      (fun _ => Offering) Offering := by
    obtain ⟨answer, s, hpoll, next, u, hround, hnext⟩ := loneExplorer.exploreAll_round lone [] [] (.fresh () loneFiles none)
    have hs : Standing loneExplorer [lone] [] s := hfresh.poll.lands hpoll
    refine .of_on hnext ?_
    cases hround with
    | aborted => exact .pure (hnone hs)
    | fatal hexplore => exact .throw ((hbenchmark hs).error _ _ hexplore)
    | last hclosing | more hclosing => exact .pure (hclosed hs hclosing)
  have hends : (loneExplorer.explore [lone]).Ends (Session.fresh () loneFiles none)
      (fun _ => Offering) Offering := by
    unfold Explorer.explore
    refine .demand_bind (fun _ _ => .after rfl ?_) (hnone hfresh)
    exact hall.bind fun _ u _ hu => .after rfl (.pure hu)
  refine noClash_of_offers hone ?_
  rcases ho : (loneExplorer.explore [lone]).on (Session.fresh () loneFiles none) with ⟨_ | report, t⟩
  · exact hends.error _ t ho
  · exact hends.ok report t ho

end Lone

end Exploration

end InlineImpact
