import InlineImpact.Proofs.Capture.Aggregate
import InlineImpact.Proofs.Capture.Lines

/-!
Captures with the same lines in another order measure the same. The iterations are taken in the order of their
spans, and iterations with equal spans contribute the same: the word of what was counted in the span. It does
not matter that running totals in another order go around at other places.
-/
namespace InlineImpact.Capture

open Decimal (rank lt_iff_rank le_iff_rank)

section Spans

variable {events events' : Events} {interval : Int} {i j : Iteration}

theorem Iteration.key_eq_iff :
    j.key = i.key ↔ rank j.start = rank i.start ∧ rank j.finish = rank i.finish ∧ j.process = i.process := by
  simp only [Iteration.key, EmbeddingLike.apply_eq_iff_eq, Prod.mk.injEq]

theorem isWithin_congr (hi : i.start.isNaN = false ∧ i.finish.isNaN = false)
    (hj : j.start.isNaN = false ∧ j.finish.isNaN = false) (hkey : j.key = i.key) {r : Rollover}
    (hr : r.process = i.process → r.time.isNaN = false) : r.isWithin j = r.isWithin i := by
  obtain ⟨hstart, hfinish, hprocess⟩ := Iteration.key_eq_iff.1 hkey
  by_cases hown : r.process = i.process
  · have htime := hr hown
    rw [Rollover.isWithin, Rollover.isWithin, hprocess, Bool.eq_iff_iff]
    simp only [Bool.and_eq_true, decide_eq_true_eq, le_iff_rank hi.1 htime, le_iff_rank htime hi.2,
      le_iff_rank hj.1 htime, le_iff_rank htime hj.2, hstart, hfinish]
  · simp [Rollover.isWithin, hprocess, hown]

theorem total_congr (h : events.Regular) (hi : i ∈ events.iterations)
    (hj : j.start.isNaN = false ∧ j.finish.isNaN = false) (hkey : j.key = i.key)
    (hperm : events'.rollovers.Perm events.rollovers) : events'.total j = events.total i := by
  have hwithin : ∀ r ∈ events.rollovers, r.isWithin j = r.isWithin i := fun r hr =>
    isWithin_congr (h.spans i hi) hj hkey fun hown => (h.rollovers i hi r hr hown).1
  have hcounts := ((hperm.filter (·.isWithin j)).map (·.count)).sum_eq
  rw [Events.total, hcounts, List.filter_congr hwithin, Events.total]

/-- Iterations with equal spans contribute the same. -/
theorem sample?_congr (h : events.Regular) (h' : events'.Regular) (hi : i ∈ events.iterations)
    (hj : j ∈ events'.iterations) (hkey : j.key = i.key) (hperm : events'.rollovers.Perm events.rollovers) :
    sample? (.ofOrdered (events'.own j.process)) interval j =
      sample? (.ofOrdered (events.own i.process)) interval i := by
  have hspan := h.spans i hi
  have hspan' := h'.spans j hj
  obtain ⟨hstart, hfinish, -⟩ := Iteration.key_eq_iff.1 hkey
  rw [sample?, sample?]
  simp only [le_iff_rank hspan.2 hspan.1, le_iff_rank hspan'.2 hspan'.1, hstart, hfinish]
  by_cases hle : rank i.finish ≤ rank i.start
  · rw [if_pos hle, if_pos hle]
  · have hlt : i.start < i.finish := (lt_iff_rank hspan.1 hspan.2).2 (not_le.1 hle)
    have hlt' : j.start < j.finish :=
      (lt_iff_rank hspan'.1 hspan'.2).2 (hstart.symm ▸ hfinish.symm ▸ not_le.1 hle)
    rw [if_neg hle, if_neg hle, between_eq_toWord_total h hi hlt, between_eq_toWord_total h' hj hlt',
      total_congr h hi hspan' hkey hperm]

/-- Sorted, permuted iterations have the same spans. -/
theorem map_key_mergeSort {l l' : List Iteration} (hl : ∀ i ∈ l, i.start.isNaN = false ∧ i.finish.isNaN = false)
    (hperm : l'.Perm l) :
    (l'.mergeSort Iteration.le).map Iteration.key = (l.mergeSort Iteration.le).map Iteration.key := by
  have hsorted (l : List Iteration) (h : ∀ i ∈ l, i.start.isNaN = false ∧ i.finish.isNaN = false) :
      ((l.mergeSort Iteration.le).map Iteration.key).Pairwise (· ≤ ·) :=
    List.pairwise_map.2 (pairwise_mergeSort_of_key _ fun a ha b hb => Iteration.le_eq (h a ha) (h b hb))
  have hkeys := (((List.mergeSort_perm l' Iteration.le).trans hperm).trans
    (List.mergeSort_perm l Iteration.le).symm).map Iteration.key
  exact hkeys.eq_of_pairwise' (hsorted l' fun i hi => hl i (hperm.subset hi)) (hsorted l hl)

theorem aggregate_eq_mapM (h : events.Regular) : aggregate events interval =
    ((events.iterations.mergeSort Iteration.le).mapM fun i =>
      sample? (.ofOrdered (events.own i.process)) interval i).map fun found =>
        { samples := found.filterMap id
          discarded := (found.filter Option.isNone).length
          callCounts := events.calls } := by
  have hstep : (events.iterations.mergeSort Iteration.le).map (fun i =>
        sample? ((events.lines.get? i.process).getD ⟨#[], #[]⟩) interval i) =
      (events.iterations.mergeSort Iteration.le).map fun i =>
        sample? (.ofOrdered (events.own i.process)) interval i :=
    List.map_congr_left fun i hi => by rw [get?_lines (List.mem_mergeSort.1 hi), Option.getD_some]
  rw [aggregate, timelines_eq h]
  simp only [bind, Except.bind]
  rw [mapM_congr hstep]
  cases (events.iterations.mergeSort Iteration.le).mapM fun i =>
    sample? (.ofOrdered (events.own i.process)) interval i <;> rfl

/-- Permuted events have the same samples in the same order, or the same failure. -/
theorem found_congr (interval : Int) (h : events.Regular) (h' : events'.Regular)
    (hrollovers : events'.rollovers.Perm events.rollovers)
    (hiterations : events'.iterations.Perm events.iterations) :
    ((events'.iterations.mergeSort Iteration.le).mapM fun i =>
        sample? (.ofOrdered (events'.own i.process)) interval i) =
      (events.iterations.mergeSort Iteration.le).mapM fun i =>
        sample? (.ofOrdered (events.own i.process)) interval i := by
  have hkeys := map_key_mergeSort h.spans hiterations
  refine mapM_congr (List.ext_getElem ?_ fun n hn' hn => ?_)
  · simpa using congrArg List.length hkeys
  · rw [List.length_map] at hn hn'
    have hkey : (events'.iterations.mergeSort Iteration.le)[n].key =
        (events.iterations.mergeSort Iteration.le)[n].key := by
      rw [← List.getElem_map Iteration.key (h := by rwa [List.length_map]),
        ← List.getElem_map Iteration.key (h := by rwa [List.length_map])]
      simp only [hkeys]
    rw [List.getElem_map, List.getElem_map]
    exact sample?_congr h h' (List.mem_mergeSort.1 (List.getElem_mem hn))
      (List.mem_mergeSort.1 (List.getElem_mem hn')) hkey hrollovers

theorem Events.Regular.of_perm (h : events.Regular) (hrollovers : events'.rollovers.Perm events.rollovers)
    (hiterations : events'.iterations.Perm events.iterations) : events'.Regular :=
  ⟨fun i hi => h.spans i (hiterations.subset hi), fun i hi r hr =>
    h.rollovers i (hiterations.subset hi) r (hrollovers.subset hr)⟩

end Spans

section Files

variable {ws ws' ws'' : Workspace} {path path' path'' : String} {lines lines' : List (List Char)}
  {events events' : Events} {interval : Int}

/-- Permuted lines give permuted events, and the same count for each key. -/
theorem exists_readEvents_of_perm (h : HasLines ws path lines) (hread : readEvents ws path = .ok events)
    (h' : HasLines ws' path' lines') (hperm : lines'.Perm lines) :
    ∃ events', readEvents ws' path' = .ok events' ∧ events'.rollovers.Perm events.rollovers ∧
      events'.iterations.Perm events.iterations ∧
      ∀ key, events'.calls.get? key = events.calls.get? key := by
  obtain ⟨hall, rfl⟩ := (readEvents_eq_ok_iff_of_lines h).1 hread
  have hrecords := hperm.filterMap recordOf?
  refine ⟨_, (readEvents_eq_ok_iff_of_lines h').2 ⟨fun line hline => hall line (hperm.subset hline), rfl⟩, ?_⟩
  simp only [rollovers_ofRecords, iterations_ofRecords, get?_calls_ofRecords]
  exact ⟨hrecords.filterMap _, hrecords.filterMap _, fun key => sum?_perm (hrecords.filterMap _)⟩

/-- The events of two lists of lines one after the other. -/
theorem exists_readEvents_append (h : HasLines ws path lines) (hread : readEvents ws path = .ok events)
    (h' : HasLines ws' path' lines') (hread' : readEvents ws' path' = .ok events')
    (h'' : HasLines ws'' path'' (lines ++ lines')) :
    ∃ joined, readEvents ws'' path'' = .ok joined ∧ joined.rollovers = events.rollovers ++ events'.rollovers ∧
      joined.iterations = events.iterations ++ events'.iterations ∧
      ∀ key, joined.calls.get? key =
        Option.merge (· + ·) (events.calls.get? key) (events'.calls.get? key) := by
  obtain ⟨hall, rfl⟩ := (readEvents_eq_ok_iff_of_lines h).1 hread
  obtain ⟨hall', rfl⟩ := (readEvents_eq_ok_iff_of_lines h').1 hread'
  refine ⟨_, (readEvents_eq_ok_iff_of_lines h'').2 ⟨fun line hline => ?_, rfl⟩, ?_⟩
  · rcases List.mem_append.1 hline with hline | hline
    · exact hall line hline
    · exact hall' line hline
  · simp only [rollovers_ofRecords, iterations_ofRecords, get?_calls_ofRecords, List.filterMap_append,
      sum?_append, implies_true, and_self]

end Files

/-- What a capture measures depends on its lines only, not on their order or on blank lines between them: the
samples in their order, the number of discarded iterations and the count of each key are the same, and so is a
failure. Lines one after the other give their events one after the other, with the counts of each key added. -/
theorem load_rearranged {ws : Workspace} {path : String} {lines : List (List Char)} {events : Events}
    (hlines : HasLines ws path lines) (hread : readEvents ws path = .ok events) :
    (events.Regular → ∀ (ws' : Workspace) (path' : String) (lines' : List (List Char)),
      HasLines ws' path' lines' → lines'.Perm lines → ∀ interval : Int,
        (interval.natAbs < 2 ^ 960 → ∃ m, load ws path interval = .ok m) ∧
        (∀ e, load ws path interval = .error e → load ws' path' interval = .error e) ∧
        ∀ m, load ws path interval = .ok m → ∃ m', load ws' path' interval = .ok m' ∧
          m'.samples = m.samples ∧ m'.discarded = m.discarded ∧
          ∀ key, m'.callCounts.get? key = m.callCounts.get? key) ∧
    ∀ (ws' : Workspace) (path' : String) (lines' : List (List Char)) (events' : Events),
      HasLines ws' path' lines' → readEvents ws' path' = .ok events' →
      ∀ (ws'' : Workspace) (path'' : String), HasLines ws'' path'' (lines ++ lines') →
        ∃ joined, readEvents ws'' path'' = .ok joined ∧
          joined.rollovers = events.rollovers ++ events'.rollovers ∧
          joined.iterations = events.iterations ++ events'.iterations ∧
          ∀ key, joined.calls.get? key =
            Option.merge (· + ·) (events.calls.get? key) (events'.calls.get? key) := by
  refine ⟨fun hregular ws' path' lines' hlines' hperm interval => ?_,
    fun ws' path' lines' events' hlines' hread' ws'' path'' hlines'' =>
      exists_readEvents_append hlines hread hlines' hread' hlines''⟩
  obtain ⟨events', hread', hrollovers, hiterations, hcalls⟩ :=
    exists_readEvents_of_perm hlines hread hlines' hperm
  have hfound := found_congr interval hregular (hregular.of_perm hrollovers hiterations)
    hrollovers hiterations
  have hok (hinterval : interval.natAbs < 2 ^ 960) :=
    exists_mapM_eq_ok fun i (_ : i ∈ events.iterations.mergeSort Iteration.le) =>
      exists_sample? (.ofOrdered (events.own i.process)) hinterval i
  rw [load_of_readEvents hread, load_of_readEvents hread', aggregate_eq_mapM hregular,
    aggregate_eq_mapM (hregular.of_perm hrollovers hiterations), hfound]
  generalize (events.iterations.mergeSort Iteration.le).mapM (fun i =>
    sample? (.ofOrdered (events.own i.process)) interval i) = outcome at hok ⊢
  cases outcome with
  | error e =>
    refine ⟨fun hinterval => ?_, fun e' he => he, fun m hm => by cases hm⟩
    obtain ⟨found, hfound⟩ := hok hinterval
    cases hfound
  | ok found =>
    refine ⟨fun _ => ⟨_, rfl⟩, fun e he => (by cases he), fun m hm => ?_⟩
    cases hm
    exact ⟨_, rfl, rfl, rfl, hcalls⟩

/-- Two rollovers at the same time whose total goes around, an iteration that ends with them, the calls of a
method and a line that is cut off. -/
def tangled : List (List Char) :=
  ["\x7b\"kind\": \"pmc\", \"ts\": 2, \"count\": 9223372036854775807\x7d",
    "\x7b\"kind\": \"calls\", \"method\": \"0x1\", \"count\": 5\x7d",
    "\x7b\"kind\": \"iteration\", \"start\": -0.0, \"end\": 2\x7d",
    "\x7b\"kind\": \"pmc\", \"ts\": 2\x7d", "\x7b\"kind\": \"cal"].map String.toList

/-- A blank line after each line. -/
def spaced (lines : List (List Char)) : List (List Char) := lines.flatMap fun line => [line, [' ', '\t']]

theorem load_tangled : ∃ m m', load (captureOf (joined tangled)) "/events" 1000 = .ok m ∧
    load (captureOf (joined (spaced tangled.reverse))) "/events" 1000 = .ok m' ∧ m'.samples = m.samples ∧
    m'.discarded = m.discarded ∧ ∀ key, m'.callCounts.get? key = m.callCounts.get? key := by
  have hlines : HasLines (captureOf (joined tangled)) "/events" tangled := hasLines_joined (by decide +kernel)
  have hlines' : HasLines (captureOf (joined (spaced tangled.reverse))) "/events" tangled.reverse :=
    ⟨_, _, read_captureOf _, decode?_captureOf (by decide +kernel), by decide +kernel⟩
  have hread := (readEvents_eq_ok_iff_of_lines hlines).2 ⟨by decide +kernel, rfl⟩
  have hregular : (Events.ofRecords (tangled.filterMap recordOf?)).Regular :=
    ⟨by decide +kernel, by decide +kernel⟩
  obtain ⟨hok, -, hsame⟩ := (load_rearranged hlines hread).1 hregular _ _ _ hlines' tangled.reverse_perm 1000
  obtain ⟨m, hm⟩ := hok (by decide +kernel)
  obtain ⟨m', hm', hsamples, hdiscarded, hcalls⟩ := hsame m hm
  exact ⟨m, m', hm, hm', hsamples, hdiscarded, hcalls⟩

end InlineImpact.Capture
