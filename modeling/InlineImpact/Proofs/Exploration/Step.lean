import InlineImpact.Proofs.Exploration.Journal
import InlineImpact.Proofs.Forest
import Mathlib.Logic.Relation

/-!
An exploration as a sequence of small steps. Measuring takes quiet steps only; a row is handed out in a
step that tells under which condition, so whatever each step preserves is preserved by every operation,
also by one that fails on the way. `explore_within` is the main result; `answerAll_steps` carries it over
to the whole life of an explorer.
-/
namespace InlineImpact.Exploration

open Relation (ReflTransGen)

variable {W α β : Type}

/-- A step that hands out no row. -/
inductive Quiet (e : Explorer W) : Session W → Session W → Prop where
  | say (s : Session W) (text : String) : Quiet e s ((say text).on s).2
  | poll (s : Session W) : Quiet e s (e.poll.on s).2
  | measureTree (s : Session W) (b : Benchmark) (t : Tree) : Quiet e s ((e.measureTree b t).on s).2
  | fullForest (s : Session W) (b : Benchmark) : Quiet e s ((e.fullForest b).on s).2

/-- A row is handed out only for a context that does not count as explored, and only for benchmarks and
roots as `p` has them. -/
inductive Step (e : Explorer W) (p : String → MethodId → Prop) : Session W → Session W → Prop where
  | quiet {s t : Session W} (h : Quiet e s t) : Step e p s t
  | missing (s : Session W) (b : Benchmark) (root : MethodId) (d : Decision)
    (h : d.context ∉ s.explored) (hp : p b.name root) :
    Step e p s ((emit ⟨b.name, root, d, none⟩).on s).2
  | measured (s : Session W) (b : Benchmark) (root : MethodId) (d : Decision) (est : Estimate)
    (h : d.context ∉ s.explored) (hp : p b.name root) :
    Step e p s ((Explorer.emitMeasured b root d est).on s).2

/-- From every session the operation takes steps of `R` only. -/
def Exploring.Within (R : Session W → Session W → Prop) (x : Exploring W α) : Prop :=
  ∀ s, ReflTransGen R s (x.on s).2

namespace Exploring.Within

variable {R : Session W → Session W → Prop}

theorem of_still {x : Exploring W α} (h : ∀ s, (x.on s).2 = s) : x.Within R := by
  intro s
  rw [h s]

theorem pure (a : α) : (pure a : Exploring W α).Within R := of_still fun _ => rfl

theorem throw (f : Failure) : (throw f : Exploring W α).Within R := of_still fun _ => rfl

theorem demand (r : Except Failure α) : (demand r : Exploring W α).Within R := of_still fun _ => rfl

theorem get : (get : Exploring W (Session W)).Within R := of_still fun _ => rfl

/-- The steps of the second operation come after those of the first. -/
theorem bind_at {x : Exploring W α} {k : α → Exploring W β} {s : Session W}
    (hx : ReflTransGen R s (x.on s).2)
    (hk : ∀ a t, x.on s = (.ok a, t) → ReflTransGen R t ((k a).on t).2) :
    ReflTransGen R s ((x >>= k).on s).2 := by
  rw [on_bind]
  rcases h : x.on s with ⟨o, t⟩
  rw [h] at hx
  cases o with
  | error f => exact hx
  | ok a => exact hx.trans (hk a t h)

theorem bind {x : Exploring W α} {k : α → Exploring W β} (hx : x.Within R)
    (hk : ∀ a, (k a).Within R) : (x >>= k).Within R :=
  fun s => bind_at (hx s) fun a t _ => hk a t

theorem steps {x : Exploring W α} {s t : Session W} {o : Except Failure α} (hx : x.Within R)
    (h : x.on s = (o, t)) : ReflTransGen R s t := by
  have := hx s
  rwa [h] at this

theorem caught {x : Exploring W α} (hx : x.Within R) : (caught x).Within R := hx

theorem mono {x : Exploring W α} (hx : x.Within R) {R' : Session W → Session W → Prop}
    (h : ∀ s t, R s t → R' s t) : x.Within R' :=
  fun s => ReflTransGen.mono h _ _ (hx s)

end Exploring.Within

namespace Explorer

variable (e : Explorer W)

theorem say_within (text : String) : (say text : Exploring W Unit).Within (Quiet e) :=
  fun s => .single (.say s text)

theorem poll_within : e.poll.Within (Quiet e) := fun s => .single (.poll s)

theorem measureTree_within (b : Benchmark) (t : Tree) : (e.measureTree b t).Within (Quiet e) :=
  fun s => .single (.measureTree s b t)

theorem fullForest_within (b : Benchmark) : (e.fullForest b).Within (Quiet e) :=
  fun s => .single (.fullForest s b)

theorem measureEnds_within (b : Benchmark) (full : Tree) : (e.measureEnds b full).Within (Quiet e) := by
  refine (e.measureTree_within b _).bind fun empty => e.poll_within.bind fun answer => ?_
  cases answer with
  | true =>
    exact Exploring.Within.bind (.throw _) fun _ => (e.measureTree_within b full).bind fun _ => .pure _
  | false => exact (e.measureTree_within b full).bind fun _ => .pure _

theorem measurePair_within (b : Benchmark) (parent : Tree) (known : Option Measurement)
    (child : Tree) : (e.measurePair b parent known child).Within (Quiet e) := by
  cases known with
  | some m =>
    exact Exploring.Within.bind (.pure _) fun _ => (e.measureTree_within b child).bind fun _ => .pure _
  | none =>
    exact (e.measureTree_within b parent).bind fun _ =>
      (e.measureTree_within b child).bind fun _ => .pure _

end Explorer

section Emission

variable {e : Explorer W} {p : String → MethodId → Prop} {s t : Session W}

/-- Quiet steps leave the explored contexts alone, and add no row. -/
theorem Quiet.still (h : Quiet e s t) : t.explored = s.explored ∧
    ∃ J, t.journal = s.journal ++ J ∧ J.filterMap Event.row? = [] := by
  cases h with
  | say text => exact ⟨rfl, [], by simp, rfl⟩
  | poll => exact ⟨rfl, [.polled _], rfl, rfl⟩
  | measureTree b t =>
    have h := e.measureTree_spec b t s
    generalize (e.measureTree b t).on s = r at h
    obtain ⟨o, u⟩ := r
    cases h with
    | unprepared => exact ⟨rfl, [], by simp, rfl⟩
    | remembered hc hm hs => exact ⟨hs.explored, _, hs.journal, rfl⟩
    | refused hc hr hs => exact ⟨hs.explored, _, hs.journal, rfl⟩
    | failed hc hn hr hb hs => exact ⟨hs.explored, _, hs.journal, hb.row_free⟩
    | counted hc hn hr hb hs => exact ⟨hs.explored, _, hs.journal, hb.row_free⟩
  | fullForest b =>
    have h := e.fullForest_spec b s
    generalize (e.fullForest b).on s = r at h
    obtain ⟨o, u⟩ := r
    cases h with
    | refused => exact ⟨rfl, [], by simp, rfl⟩
    | failed hb hs => exact ⟨hs.explored, _, hs.journal, hb.row_free⟩
    | unreported hb hs => exact ⟨hs.explored, _, hs.journal, hb.row_free⟩
    | captured hb hf hs =>
      exact ⟨hs.explored, _, hs.journal, by simp [hb.row_free, Event.row?]⟩

theorem Quiet.rows_eq (h : Quiet e s t) : t.rows = s.rows := by
  obtain ⟨-, J, hj, hr⟩ := h.still
  simp [Session.rows, hj, hr]

theorem Quiet.run_explored (h : ReflTransGen (Quiet e) s t) : t.explored = s.explored := by
  induction h with
  | refl => rfl
  | tail _ hstep ih => exact hstep.still.1.trans ih

theorem Quiet.run_rows_eq (h : ReflTransGen (Quiet e) s t) : t.rows = s.rows := by
  induction h with
  | refl => rfl
  | tail _ hstep ih => exact hstep.rows_eq.trans ih

theorem Quiet.run_steps (h : ReflTransGen (Quiet e) s t) : ReflTransGen (Step e p) s t :=
  ReflTransGen.mono (fun _ _ => Step.quiet) _ _ h

theorem Step.of_emitMeasured {b : Benchmark} {root : MethodId} {d : Decision} {est : Estimate}
    {o : Except Failure Unit} (hd : d.context ∉ s.explored) (hp : p b.name root)
    (h : (Explorer.emitMeasured b root d est).on s = (o, t)) : Step e p s t := by
  have hstep := Step.measured (e := e) s b root d est hd hp
  rwa [h] at hstep

/-- What was done stays done, and a row comes with its event. -/
theorem Step.still (h : Step e p s t) : ∃ J, t.journal = s.journal ++ J ∧
    ∀ row ∈ J.filterMap Event.row?, p row.benchmark row.root := by
  have hrow (b : Benchmark) (root : MethodId) (d : Decision) (o : Option Estimate) (hp : p b.name root) :
      ∀ row ∈ [Event.emitted ⟨b.name, root, d, o⟩].filterMap Event.row?, p row.benchmark row.root := by
    simpa [Event.row?] using hp
  cases h with
  | quiet h =>
    obtain ⟨-, J, hj, hr⟩ := h.still
    exact ⟨J, hj, by simp [hr]⟩
  | missing b root d _ hp =>
    rcases on_emit ⟨b.name, root, d, none⟩ s with ⟨ds, ws, hm⟩ | ⟨f, ds, ws, hm⟩ <;> rw [hm]
    · exact ⟨_, rfl, hrow b root d none hp⟩
    · exact ⟨[], by simp, by simp⟩
  | measured b root d est _ hp =>
    rcases on_emit ⟨b.name, root, d, some est⟩ s with ⟨ds, ws, hm⟩ | ⟨f, ds, ws, hm⟩
    · rw [Explorer.emitMeasured, Exploring.on_bind_ok hm, Exploring.on_markExplored]
      dsimp only
      split <;> exact ⟨_, rfl, hrow b root d (some est) hp⟩
    · rw [Explorer.emitMeasured, Exploring.on_bind_error hm]
      exact ⟨[], by simp, by simp⟩

theorem Step.run_still (h : ReflTransGen (Step e p) s t) : ∃ J, t.journal = s.journal ++ J ∧
    ∀ row ∈ J.filterMap Event.row?, p row.benchmark row.root := by
  induction h with
  | refl => exact ⟨[], by simp, by simp⟩
  | tail _ hstep ih =>
    obtain ⟨J, hj, hr⟩ := ih
    obtain ⟨K, hk, hr'⟩ := hstep.still
    refine ⟨J ++ K, by rw [hk, hj, List.append_assoc], fun row hrow => ?_⟩
    rw [List.filterMap_append, List.mem_append] at hrow
    exact hrow.elim (hr row) (hr' row)

theorem Step.run_journal_le (h : ReflTransGen (Step e p) s t) : s.journal <+: t.journal := by
  obtain ⟨J, hj, -⟩ := Step.run_still h
  exact ⟨J, hj.symm⟩

theorem Quiet.run_journal_le (h : ReflTransGen (Quiet e) s t) : s.journal <+: t.journal :=
  Step.run_journal_le (p := fun _ _ => True) (Quiet.run_steps h)

theorem Step.run_rows (h : ReflTransGen (Step e p) s t) : ∃ new, t.rows = s.rows ++ new ∧
    ∀ row ∈ new, p row.benchmark row.root := by
  obtain ⟨J, hj, hr⟩ := Step.run_still h
  exact ⟨_, by rw [Session.rows, hj, List.filterMap_append]; rfl, hr⟩

end Emission

namespace Explorer

open Exploring (Within)

variable (e : Explorer W) {p : String → MethodId → Prop}

theorem quietly {x : Exploring W α} (hx : x.Within (Quiet e)) : x.Within (Step e p) :=
  hx.mono fun _ _ => Step.quiet

theorem emitMissing_within (b : Benchmark) (root : MethodId) (hp : p b.name root) (ds : List Decision) :
    (emitMissing b root ds : Exploring W Nat).Within (Step e p) := by
  induction ds with
  | nil => exact .pure _
  | cons d rest ih =>
    intro s
    unfold emitMissing
    rw [Exploring.on_bind_ok (Exploring.on_isExplored d.context s)]
    split
    · exact ih s
    · rename_i hd
      refine Within.bind_at (.single (.missing s b root d (by simpa using hd) hp)) fun _ t _ => ?_
      exact ih.bind (fun _ => .pure _) t

theorem giveUp_within (b : Benchmark) (ds : List Decision) (report : RootReport)
    (hp : p b.name report.root) (fault : RunFault) :
    (giveUp b ds report fault : Exploring W RootReport).Within (Step e p) :=
  (e.quietly (e.say_within _)).bind fun _ => (e.emitMissing_within b _ hp ds).bind fun _ => .pure _

theorem cutShort_within (b : Benchmark) (ds : List Decision) (report : RootReport)
    (hp : p b.name report.root) (failure : Failure) :
    (cutShort b ds report failure : Exploring W RootReport).Within (Step e p) := by
  cases failure with
  | aborted point => exact .pure _
  | run fault code => exact e.giveUp_within b ds report hp fault
  | _ => exact .throw _

/-- A decision is measured only after its context was found unexplored, and measuring explores nothing. -/
theorem grow_within (b : Benchmark) (f : Forest) (tree : Tree) (parent : Option Measurement)
    (report : RootReport) (hp : p b.name report.root) (ds : List Decision) :
    (e.grow b f tree parent report ds).Within (Step e p) := by
  induction ds generalizing tree parent report with
  | nil => exact .pure _
  | cons d rest ih =>
    intro s
    obtain ⟨answer, t, hpoll, next, u, hturn, hnext⟩ := e.grow_turn b f report d rest tree parent s
    rw [hnext]
    refine (Quiet.run_steps (e.poll_within.steps hpoll)).trans ?_
    cases hturn with
    | aborted => exact .refl
    | refused _ => exact .refl
    | passed _ _ => exact ih _ none { report with skipped := report.skipped + 1 } hp t
    | @unpaired _ _ _ failure _ _ hpair =>
      have hquiet := (e.measurePair_within b tree parent _).steps hpair
      exact (Quiet.run_steps hquiet).trans (e.cutShort_within b _ report hp failure u)
    | @paired _ _ child parentRun childRun _ hd hpair =>
      have hquiet := (e.measurePair_within b tree parent child).steps hpair
      have hd : d.context ∉ u.explored := Quiet.run_explored hquiet ▸ hd
      obtain ⟨next, v, hrecording, hnext⟩ := e.record_recording b f report d rest child parentRun childRun u
      rw [hnext]
      refine (Quiet.run_steps hquiet).trans ?_
      cases hrecording with
      | unestimated _ => exact .refl
      | unwritten _ hemit => exact .single (.of_emitMeasured hd hp hemit)
      | written _ hemit hsay =>
        have hsaid := Quiet.run_steps (p := p) ((e.say_within _).steps hsay)
        exact (hsaid.head (.of_emitMeasured hd hp hemit)).trans
          (ih child (some childRun) { report with pairs := report.pairs + 1 } hp v)

theorem exploreTree_within (b : Benchmark) (f : Forest) (full : Tree) (hp : p b.name full.root) :
    (e.exploreTree b f full).Within (Step e p) := by
  intro s
  obtain ⟨next, t, hentry, hnext⟩ := e.exploreTree_entry b f full s
  have hends {o : Except Failure (Measurement × Measurement)} {u : Session W}
      (h : (e.measureEnds b full).on s = (o, u)) : ReflTransGen (Step e p) s u :=
    Quiet.run_steps ((e.measureEnds_within b full).steps h)
  rw [hnext]
  cases hentry with
  | unmeasured h => exact (hends h).trans (e.cutShort_within b _ _ hp _ t)
  | unjudged h _ => exact hends h
  | shortCircuited h _ hsay => exact (hends h).trans (Quiet.run_steps ((e.say_within _).steps hsay))
  | grown h _ => exact (hends h).trans (e.grow_within b f _ _ _ hp _ t)

theorem exploreRoot_within (b : Benchmark) (f : Forest) (root : MethodId) (hp : p b.name root) :
    (e.exploreRoot b f root).Within (Step e p) := by
  intro s
  have hopening := e.exploreRoot_opening b f root s
  generalize (e.exploreRoot b f root).on s = done at hopening
  cases hopening with
  | refused _ => exact .refl
  | bare _ _ => exact .refl
  | explored _ _ _ => exact .refl
  | @entered full hfull _ => exact e.exploreTree_within b f full (Forest.root_of_tree hfull ▸ hp) s

section Through

variable {R : Session W → Session W → Prop} (hquiet : ∀ s t, Quiet e s t → R s t)

include hquiet

/-- Whatever the visit of one root consists of, the visits of several consist of it and of quiet steps. -/
theorem exploreRoots_through (b : Benchmark) (f : Forest) (roots : List MethodId)
    (hroot : ∀ root ∈ roots, (e.exploreRoot b f root).Within R) : (e.exploreRoots b f roots).Within R := by
  induction roots with
  | nil => exact .pure _
  | cons root rest ih =>
    obtain ⟨hfirst, hrest⟩ := List.forall_mem_cons.1 hroot
    refine (e.poll_within.mono hquiet).bind fun answer => ?_
    cases answer with
    | true => exact .pure _
    | false =>
      refine hfirst.bind fun report => ?_
      split
      · exact .pure _
      · exact (ih hrest).bind fun _ => .pure _

theorem exploreForest_through (b : Benchmark) (f : Forest) (counts : MethodId → Option Int)
    (hroot : ∀ root, (e.exploreRoot b f root).Within R) : (e.exploreForest b f counts).Within R :=
  ((e.say_within _).mono hquiet).bind fun _ =>
    (e.exploreRoots_through hquiet b f _ fun root _ => hroot root).bind fun _ => .pure _

theorem exploreBenchmark_through (b : Benchmark) (hroot : ∀ f root, (e.exploreRoot b f root).Within R) :
    (e.exploreBenchmark b).Within R :=
  ((e.fullForest_within b).mono hquiet).bind fun r => e.exploreForest_through hquiet b r.1 _ (hroot r.1)

theorem exploreAll_through (reports : Keyed String BenchmarkReport) (bs : List Benchmark)
    (hroot : ∀ b ∈ bs, ∀ f root, (e.exploreRoot b f root).Within R) :
    (e.exploreAll reports bs).Within R := by
  induction bs generalizing reports with
  | nil => exact .pure _
  | cons b rest ih =>
    obtain ⟨hb, hrest⟩ := List.forall_mem_cons.1 hroot
    refine (e.poll_within.mono hquiet).bind fun answer => ?_
    cases answer with
    | true => exact .pure _
    | false =>
      refine (e.exploreBenchmark_through hquiet b hb).caught.bind fun o => ?_
      rcases o with failure | report
      · dsimp only
        split
        · exact ((e.say_within _).mono hquiet).bind fun _ => ih _ hrest
        · exact ((e.say_within _).mono hquiet).bind fun _ => .pure _
        · exact .throw _
      · dsimp only
        split
        · exact .pure _
        · exact ih _ hrest

theorem explore_through (bs : List Benchmark)
    (hroot : ∀ b ∈ bs, ∀ f root, (e.exploreRoot b f root).Within R) : (e.explore bs).Within R :=
  (Within.demand _).bind fun _ => Within.get.bind fun _ =>
    (e.exploreAll_through hquiet [] bs hroot).bind fun _ => Within.get.bind fun _ => .pure _

end Through

theorem exploreRoots_within (b : Benchmark) (f : Forest) (roots : List MethodId)
    (hp : ∀ root ∈ roots, p b.name root) : (e.exploreRoots b f roots).Within (Step e p) :=
  e.exploreRoots_through (fun _ _ => Step.quiet) b f roots fun root hroot =>
    e.exploreRoot_within b f root (hp root hroot)

section Benchmarks

variable {b : Benchmark} (hp : ∀ root, p b.name root)

include hp

theorem exploreForest_within (f : Forest) (counts : MethodId → Option Int) :
    (e.exploreForest b f counts).Within (Step e p) :=
  e.exploreForest_through (fun _ _ => Step.quiet) b f counts fun root => e.exploreRoot_within b f root (hp root)

theorem exploreBenchmark_within : (e.exploreBenchmark b).Within (Step e p) :=
  e.exploreBenchmark_through (fun _ _ => Step.quiet) b fun f root => e.exploreRoot_within b f root (hp root)

variable {e} in
theorem Closing.steps {report : BenchmarkReport} {last : Bool} {s t : Session W} (h : e.Closing b s report last t) :
    ReflTransGen (Step e p) s t := by
  have hexplored := e.exploreBenchmark_within hp
  cases h with
  | explored hexplore => exact hexplored.steps hexplore
  | skipped hexplore _ hsay | stopped hexplore _ hsay =>
    exact (hexplored.steps hexplore).trans (Quiet.run_steps ((e.say_within _).steps hsay))

end Benchmarks

theorem explore_within (bs : List Benchmark) (hp : ∀ b ∈ bs, ∀ root, p b.name root) :
    (e.explore bs).Within (Step e p) :=
  e.explore_through (fun _ _ => Step.quiet) bs fun b hb f root => e.exploreRoot_within b f root (hp b hb root)

end Explorer

/-- What an explorer can be asked for: to explore benchmarks, one benchmark or a given forest of it, or
one root of a forest. -/
inductive Request where
  | benchmarks (bs : List Benchmark)
  | benchmark (b : Benchmark)
  | forest (b : Benchmark) (f : Forest)
  | root (b : Benchmark) (f : Forest) (root : MethodId)

/-- The session after a request, whether it was fulfilled or failed on the way. -/
def Explorer.answer (e : Explorer W) (s : Session W) : Request → Session W
  | .benchmarks bs => ((e.explore bs).on s).2
  | .benchmark b => ((e.exploreBenchmark b).on s).2
  | .forest b f => ((e.exploreForest b f fun _ => none).on s).2
  | .root b f root => ((e.exploreRoot b f root).on s).2

/-- The session after some requests, one after the other. -/
def Explorer.answerAll (e : Explorer W) (s : Session W) (requests : List Request) : Session W :=
  requests.foldl e.answer s

/-- A session in which nothing was done yet. -/
def Session.fresh (world : W) (workspace : Workspace) (dataset : Option Dataset.Writer) : Session W :=
  { world, workspace, dataset }

namespace Explorer

variable (e : Explorer W)

section Through

variable {R : Session W → Session W → Prop} (hquiet : ∀ s t, Quiet e s t → R s t)
  (hroot : ∀ b f root, (e.exploreRoot b f root).Within R)

include hquiet hroot

theorem answer_through (s : Session W) (request : Request) : ReflTransGen R s (e.answer s request) := by
  cases request with
  | benchmarks bs => exact e.explore_through hquiet bs (fun b _ => hroot b) s
  | benchmark b => exact e.exploreBenchmark_through hquiet b (hroot b) s
  | forest b f => exact e.exploreForest_through hquiet b f _ (hroot b f) s
  | root b f root => exact hroot b f root s

theorem answerAll_through (s : Session W) (requests : List Request) :
    ReflTransGen R s (e.answerAll s requests) := by
  induction requests generalizing s with
  | nil => exact .refl
  | cons request rest ih => exact (e.answer_through hquiet hroot s request).trans (ih _)

end Through

theorem answerAll_steps (s : Session W) (requests : List Request) :
    ReflTransGen (Step e fun _ _ => True) s (e.answerAll s requests) :=
  e.answerAll_through (fun _ _ => Step.quiet) (fun b f root => e.exploreRoot_within b f root trivial) s requests

end Explorer

end InlineImpact.Exploration
