import InlineImpact.Proofs.Exploration.Pairing

/-!
The course of an exploration as a machine with a phase: between two benchmarks, between two roots of a
forest, or growing the tree of one root. A root is left for good with the first of its runs that fails, so
whatever each step of the machine keeps is kept by the whole exploration; `explore_course` says that every
exploration, also one that fails on the way, is such a course.
-/
namespace InlineImpact.Exploration

open Relation (ReflTransGen)
open Exploring (Ends Within)

variable {W α β : Type}

/-- How far an exploration is: the names of the benchmarks that it is done with, the roots of the
benchmark's forest that it is done with, and the tree of the root that it works on. -/
inductive Phase where
  | between (done : List String)
  | visiting (done : List String) (b : Benchmark) (f : Forest) (visited : List MethodId)
  | growing (done : List String) (b : Benchmark) (f : Forest) (visited : List MethodId) (full : Tree)

/-- Nothing happened but questions and rows. -/
def Apart (s t : Session W) : Prop :=
  t.measurements = s.measurements ∧
    ∃ J, t.journal = s.journal ++ J ∧ ∀ ev ∈ J, (∃ answer, ev = .polled answer) ∨ ∃ row, ev = .emitted row

/-- A step of an exploration. A root may be passed by, and is left after the first run of it that fails. -/
inductive Advance (e : Explorer W) : Phase × Session W → Phase × Session W → Prop where
  | apart {P s t} (h : Apart s t) : Advance e (P, s) (P, t)
  | opened {done b f m s t} (hb : b.name ∉ done) (h : (e.fullForest b).on s = (.ok (f, m), t)) :
    Advance e (.between done, s) (.visiting done b f [], t)
  | closed {done b failure s t} (hb : b.name ∉ done) (h : (e.fullForest b).on s = (.error failure, t)) :
    Advance e (.between done, s) (.between (b.name :: done), t)
  | passed {done b f visited s} (root : MethodId) :
    Advance e (.visiting done b f visited, s) (.visiting done b f (root :: visited), s)
  | entered {done b f visited full s} (hf : f.tree full.root = .ok full) (hv : full.root ∉ visited) :
    Advance e (.visiting done b f visited, s) (.growing done b f visited full, s)
  | measured {done b f visited full s t m} (k : Nat)
    (h : (e.measureTree b (full.upTo k)).on s = (.ok m, t)) :
    Advance e (.growing done b f visited full, s) (.growing done b f visited full, t)
  | failed {done b f visited full s t failure} (k : Nat)
    (h : (e.measureTree b (full.upTo k)).on s = (.error failure, t)) :
    Advance e (.growing done b f visited full, s) (.visiting done b f (full.root :: visited), t)
  | left {done b f visited full s} :
    Advance e (.growing done b f visited full, s) (.visiting done b f (full.root :: visited), s)
  | finished {done b f visited s} :
    Advance e (.visiting done b f visited, s) (.between (b.name :: done), s)

/-- Steps lead from the session `s₀`, in which no benchmark is done, to this phase and this session. -/
def Course (e : Explorer W) (s₀ : Session W) (P : Phase) (s : Session W) : Prop :=
  ReflTransGen (Advance e) (.between [], s₀) (P, s)

section Apartness

theorem say_apart (text : String) : (say text : Exploring W Unit).Within Apart :=
  fun s => .single ⟨rfl, [], by simp, by simp⟩

theorem poll_apart (e : Explorer W) : e.poll.Within Apart := fun s => .single ⟨rfl, _, rfl, by simp⟩

theorem emit_apart (row : Dataset.Row) : (emit row : Exploring W Unit).Within Apart := by
  intro s
  rcases on_emit row s with ⟨ds, ws, hm⟩ | ⟨f, ds, ws, hm⟩ <;> rw [hm]
  · exact .single ⟨rfl, _, rfl, by simp⟩
  · exact .single ⟨rfl, [], by simp, by simp⟩

theorem markExplored_apart (c : Decision.Context) : (markExplored c : Exploring W Unit).Within Apart := by
  intro s
  rw [Exploring.on_markExplored]
  split
  · exact .refl
  · exact .single ⟨rfl, [], by simp, by simp⟩

theorem isExplored_apart (c : Decision.Context) : (isExplored c : Exploring W Bool).Within Apart :=
  .of_still fun _ => rfl

theorem emitMissing_apart (b : Benchmark) (root : MethodId) (ds : List Decision) :
    (Explorer.emitMissing b root ds : Exploring W Nat).Within Apart := by
  induction ds with
  | nil => exact .pure _
  | cons d rest ih =>
    refine (isExplored_apart d.context).bind fun explored => ?_
    cases explored with
    | true => exact ih
    | false => exact (emit_apart _).bind fun _ => ih.bind fun _ => .pure _

theorem emitMeasured_apart (b : Benchmark) (root : MethodId) (d : Decision) (est : Estimate) :
    (Explorer.emitMeasured b root d est : Exploring W Unit).Within Apart :=
  (emit_apart _).bind fun _ => markExplored_apart _

theorem giveUp_apart (b : Benchmark) (ds : List Decision) (report : RootReport) (fault : RunFault) :
    (Explorer.giveUp b ds report fault : Exploring W RootReport).Within Apart :=
  (say_apart _).bind fun _ => (emitMissing_apart b _ ds).bind fun _ => .pure _

end Apartness

namespace Course

variable {e : Explorer W} {s₀ s : Session W} {P : Phase} {done : List String} {b : Benchmark} {f : Forest}
  {visited : List MethodId} {full : Tree} {i : Nat}

theorem step {Q : Phase} {t : Session W} (h : Course e s₀ P s) (hs : Advance e (P, s) (Q, t)) :
    Course e s₀ Q t :=
  ReflTransGen.tail h hs

theorem apart (h : Course e s₀ P s) {x : Exploring W α} (hx : x.Within Apart) {fail : Session W → Prop}
    (hfail : ∀ t, Course e s₀ P t → fail t) : x.Ends s (fun _ t => Course e s₀ P t) fail := by
  have hall {t : Session W} (ht : ReflTransGen Apart s t) : Course e s₀ P t := by
    induction ht with
    | refl => exact h
    | tail _ hstep ih => exact ih.step (.apart hstep)
  exact ⟨fun _ _ ht => hall (hx.steps ht), fun _ t ht => hfail t (hall (hx.steps ht))⟩

/-- A root is left, whether or not one of its runs failed. -/
theorem leave (h : Course e s₀ (.growing done b f visited full) s) :
    Course e s₀ (.visiting done b f (full.root :: visited)) s :=
  h.step .left

theorem measureTree (h : Course e s₀ (.growing done b f visited full) s) (k : Nat) :
    (e.measureTree b (full.upTo k)).Ends s (fun _ t => Course e s₀ (.growing done b f visited full) t)
      (Course e s₀ (.visiting done b f (full.root :: visited))) :=
  ⟨fun _ _ ht => h.step (.measured k ht), fun _ _ ht => h.step (.failed k ht)⟩

theorem measurePair (h : Course e s₀ (.growing done b f visited full) s) (known : Option Measurement) :
    (e.measurePair b (full.upTo i) known (full.upTo (i + 1))).Ends s
      (fun _ t => Course e s₀ (.growing done b f visited full) t)
      (Course e s₀ (.visiting done b f (full.root :: visited))) := by
  unfold Explorer.measurePair
  cases known with
  | some m => exact .after (Exploring.on_pure m s) ((h.measureTree (i + 1)).bind fun _ _ _ ht => .pure ht)
  | none =>
    exact (h.measureTree i).bind fun parent t _ ht => (ht.measureTree (i + 1)).bind fun _ _ _ hu => .pure hu

theorem measureEnds (h : Course e s₀ (.growing done b f visited full) s) : (e.measureEnds b full).Ends s
    (fun _ t => Course e s₀ (.growing done b f visited full) t)
    (Course e s₀ (.visiting done b f (full.root :: visited))) := by
  have hempty := h.measureTree 0
  rw [Tree.upTo_zero] at hempty
  refine hempty.bind fun empty t _ ht => ?_
  refine (ht.apart (poll_apart e) fun _ hu => hu.leave).bind fun answer u _ hu => ?_
  cases answer with
  | true => exact .of_error (Exploring.on_bind_error (Exploring.on_throw _ u) _) hu.leave
  | false =>
    have hfull := hu.measureTree full.size
    rw [Tree.upTo_size] at hfull
    exact hfull.bind fun _ _ _ hv => .pure hv

/-- Nothing is measured any more. -/
theorem cutShort (h : Course e s₀ P s) (ds : List Decision) (report : RootReport) (failure : Failure) :
    (Explorer.cutShort b ds report failure).Ends s (fun _ t => Course e s₀ P t) (Course e s₀ P) := by
  cases failure with
  | aborted point => exact .pure h
  | run fault code => exact h.apart (giveUp_apart b ds report fault) fun _ ht => ht
  | _ => exact .throw h

/-- Growing a tree ends the work on its root. -/
theorem grow {ds : List Decision} (hds : full.decisions.drop i = ds) (known : Option Measurement)
    (report : RootReport) (h : Course e s₀ (.growing done b f visited full) s) :
    (e.grow b f (full.upTo i) known report ds).Ends s
      (fun _ t => Course e s₀ (.visiting done b f (full.root :: visited)) t)
      (Course e s₀ (.visiting done b f (full.root :: visited))) := by
  induction ds generalizing i known report s with
  | nil => exact .pure h.leave
  | cons d rest ih =>
    obtain ⟨hd, hrest, -⟩ := Tree.of_drop_eq_cons hds
    obtain ⟨answer, t, hpoll, next, u, hturn, hnext⟩ := e.grow_turn b f report d rest (full.upTo i) known s
    have ht := (h.apart (poll_apart e) fun _ _ => trivial).lands hpoll
    refine .of_on hnext ?_
    cases hturn with
    | aborted => exact .pure ht.leave
    | refused _ => exact .throw ht.leave
    | passed hchild _ =>
      obtain rfl := Tree.eq_upTo_of_insert hd hchild
      exact ih hrest none _ ht
    | unpaired hchild _ hpair =>
      obtain rfl := Tree.eq_upTo_of_insert hd hchild
      exact ((ht.measurePair known).error _ u hpair).cutShort _ report _
    | @paired _ _ _ parent child hchild _ hpair =>
      obtain rfl := Tree.eq_upTo_of_insert hd hchild
      have hu := (ht.measurePair known).ok _ u hpair
      obtain ⟨next, v, hrecording, hnext⟩ := e.record_recording b f report d rest (full.upTo (i + 1)) parent child u
      refine .of_on hnext ?_
      cases hrecording with
      | unestimated _ => exact .throw hu.leave
      | unwritten _ hemit =>
        exact .throw ((hu.apart (emitMeasured_apart b report.root d _) fun _ hv => hv).error _ v hemit).leave
      | written _ hemit hsay =>
        have hw := (hu.apart (emitMeasured_apart b report.root d _) fun _ _ => trivial).lands hemit
        exact ih hrest _ _ ((hw.apart (say_apart _) fun _ _ => trivial).lands hsay)

theorem exploreTree (h : Course e s₀ (.growing done b f visited full) s) : (e.exploreTree b f full).Ends s
    (fun _ t => Course e s₀ (.visiting done b f (full.root :: visited)) t)
    (Course e s₀ (.visiting done b f (full.root :: visited))) := by
  obtain ⟨next, t, hentry, hnext⟩ := e.exploreTree_entry b f full s
  refine .of_on hnext ?_
  cases hentry with
  | unmeasured hends => exact (h.measureEnds.error _ t hends).cutShort _ _ _
  | unjudged hends _ => exact .throw (h.measureEnds.ok _ t hends).leave
  | shortCircuited hends _ hsay =>
    have hu := (h.measureEnds.ok _ _ hends).leave
    exact .pure ((hu.apart (say_apart _) fun _ _ => trivial).lands hsay)
  | grown hends _ => exact grow (i := 0) rfl _ _ (h.measureEnds.ok _ t hends)

theorem exploreRoot {root : MethodId} (hv : root ∉ visited) (h : Course e s₀ (.visiting done b f visited) s) :
    (e.exploreRoot b f root).Ends s (fun _ t => Course e s₀ (.visiting done b f (root :: visited)) t)
      (Course e s₀ (.visiting done b f (root :: visited))) := by
  have hpassed : Course e s₀ (.visiting done b f (root :: visited)) s := h.step (.passed root)
  apply Ends.of_yields
  apply Explorer.Opening.yields
  case hrefused => exact fun _ _ => hpassed
  case hbare => exact fun _ _ _ => hpassed
  case hexplored => exact fun _ _ _ _ => hpassed
  case hentered =>
    intro full hf _
    obtain rfl := Forest.root_of_tree hf
    exact (exploreTree (h.step (.entered hf hv))).yields

theorem exploreRoots {roots : List MethodId} (hroots : roots.Nodup) (hv : ∀ root ∈ roots, root ∉ visited)
    (h : Course e s₀ (.visiting done b f visited) s) : (e.exploreRoots b f roots).Ends s
      (fun _ t => ∃ visited, Course e s₀ (.visiting done b f visited) t)
      (fun t => ∃ visited, Course e s₀ (.visiting done b f visited) t) := by
  induction roots generalizing visited s with
  | nil => exact .pure ⟨_, h⟩
  | cons root rest ih =>
    obtain ⟨hroot, hrest⟩ := List.nodup_cons.1 hroots
    obtain ⟨hvroot, hvrest⟩ := List.forall_mem_cons.1 hv
    obtain ⟨answer, t, hpoll, next, u, hleg, hnext⟩ := e.exploreRoots_leg b f root rest s
    have ht : Course e s₀ (.visiting done b f visited) t := (h.apart (poll_apart e) fun _ _ => trivial).lands hpoll
    have hexplored := ht.exploreRoot hvroot
    refine .of_on hnext ?_
    cases hleg with
    | aborted => exact .pure ⟨_, ht⟩
    | failed hvisit => exact .throw ⟨_, hexplored.error _ _ hvisit⟩
    | cut hvisit => exact .pure ⟨_, hexplored.ok _ _ hvisit⟩
    | visited hvisit =>
      have hvrest : ∀ root' ∈ rest, root' ∉ root :: visited := fun root' hmem hv =>
        (List.mem_cons.1 hv).elim (fun heq => hroot (heq ▸ hmem)) (hvrest root' hmem)
      exact (ih hrest hvrest (hexplored.ok _ _ hvisit)).bind fun _ _ _ hv => .pure hv

theorem exploreBenchmark (hb : b.name ∉ done) (h : Course e s₀ (.between done) s) :
    (e.exploreBenchmark b).Ends s (fun _ t => Course e s₀ (.between (b.name :: done)) t)
      (Course e s₀ (.between (b.name :: done))) := by
  have hfull : (e.fullForest b).Ends s
      (fun r t => Course e s₀ (.visiting done b r.1 []) t ∧ r.1.roots.Nodup)
      (Course e s₀ (.between (b.name :: done))) := by
    refine ⟨fun r t ht => ⟨h.step (.opened hb ht), ?_⟩, fun _ _ ht => h.step (.closed hb ht)⟩
    have hspec := e.fullForest_spec b s
    rw [ht] at hspec
    cases hspec with
    | captured _ hf _ => exact Forest.nodup_roots_of_load hf
  unfold Explorer.exploreBenchmark
  refine hfull.bind fun r t _ ⟨ht, hroots⟩ => ?_
  unfold Explorer.exploreForest
  refine (ht.apart (say_apart _) fun _ hu => hu.step .finished).bind fun _ u _ hu => ?_
  refine ((hu.exploreRoots (Forest.nodup_rootsByCalls hroots _) (by simp)).mono (fun _ _ _ hv => hv)
    fun _ _ _ ⟨_, hv⟩ => hv.step .finished).bind fun _ v _ ⟨_, hv⟩ => .pure (hv.step .finished)

theorem closing (hb : b.name ∉ done) (h : Course e s₀ (.between done) s) {report : BenchmarkReport} {last : Bool}
    {t : Session W} (hclosing : e.Closing b s report last t) : Course e s₀ (.between (b.name :: done)) t := by
  have hexplored := h.exploreBenchmark hb
  cases hclosing with
  | explored hexplore => exact hexplored.ok _ _ hexplore
  | skipped hexplore _ hsay | stopped hexplore _ hsay =>
    exact ((hexplored.error _ _ hexplore).apart (say_apart _) fun _ _ => trivial).lands hsay

theorem exploreAll {rest : List Benchmark} (hnames : (rest.map (·.name)).Nodup)
    (hrest : ∀ b ∈ rest, b.name ∉ done) (reports : Keyed String BenchmarkReport)
    (h : Course e s₀ (.between done) s) : (e.exploreAll reports rest).Ends s
      (fun _ t => ∃ done, Course e s₀ (.between done) t) (fun t => ∃ done, Course e s₀ (.between done) t) := by
  induction rest generalizing done reports s with
  | nil => exact .pure ⟨_, h⟩
  | cons b rest ih =>
    obtain ⟨hname, hnames⟩ := List.nodup_cons.1 hnames
    obtain ⟨hdone, hrest⟩ := List.forall_mem_cons.1 hrest
    obtain ⟨answer, t, hpoll, next, u, hround, hnext⟩ := e.exploreAll_round b reports rest s
    have ht : Course e s₀ (.between done) t := (h.apart (poll_apart e) fun _ _ => trivial).lands hpoll
    refine .of_on hnext ?_
    cases hround with
    | aborted => exact .pure ⟨_, ht⟩
    | fatal hexplore => exact .throw ⟨_, (ht.exploreBenchmark hdone).error _ _ hexplore⟩
    | last hclosing => exact .pure ⟨_, ht.closing hdone hclosing⟩
    | more hclosing => exact ih hnames (forall_name_not_mem_cons hname hrest) _ (ht.closing hdone hclosing)

end Course

/-- Every exploration of benchmarks with different names is a course. -/
theorem explore_course (e : Explorer W) {bs : List Benchmark} (hnames : (bs.map (·.name)).Nodup)
    (s : Session W) : ∃ done, Course e s (.between done) ((e.explore bs).on s).2 := by
  have hfresh : Course e s (.between []) s := .refl
  have hall := Course.exploreAll hnames (by simp) [] hfresh
  have hends : (e.explore bs).Ends s (fun _ t => ∃ done, Course e s (.between done) t)
      (fun t => ∃ done, Course e s (.between done) t) := by
    unfold Explorer.explore
    refine .demand_bind (fun _ _ => .after rfl ?_) ⟨_, hfresh⟩
    exact hall.bind fun _ u _ hu => .after rfl (.pure hu)
  rcases ho : (e.explore bs).on s with ⟨_ | report, t⟩
  · exact hends.error _ t ho
  · exact hends.ok report t ho

end InlineImpact.Exploration
