import InlineImpact.Proofs.Exploration.Step

/-!
Which rows can stand beside each other. A context counts as explored exactly if it has a row with an
estimate, it has one such row at most, and no row of any kind comes for it after that one. One step
preserves this, so it holds after every sequence of requests to an explorer, whatever fails in them.
-/
namespace InlineImpact

/-- The row holds an estimate for a context. -/
def Dataset.Row.Measures (r : Dataset.Row) (c : Decision.Context) : Prop :=
  r.estimate.isSome ∧ r.decision.context = c

instance (r : Dataset.Row) (c : Decision.Context) : Decidable (r.Measures c) :=
  inferInstanceAs (Decidable (_ ∧ _))

namespace Exploration

open Relation (ReflTransGen)

variable {W : Type}

/-- The explored contexts are those with an estimate, and an estimate closes its context. -/
structure Deduplicated (s : Session W) : Prop where
  explored_iff : ∀ c, c ∈ s.explored ↔ ∃ r ∈ s.rows, r.Measures c
  closed : s.rows.Pairwise fun r r' => ∀ c, r.Measures c → r'.decision.context ≠ c

namespace Deduplicated

variable {e : Explorer W} {p : String → MethodId → Prop} {s t : Session W}

theorem fresh (world : W) (workspace : Workspace) (dataset : Option Dataset.Writer) :
    Deduplicated (Session.fresh world workspace dataset) :=
  ⟨by simp [Session.fresh, Session.rows], by simp [Session.fresh, Session.rows]⟩

/-- Only the explored contexts and the rows matter. -/
theorem congr (h : Deduplicated s) (he : t.explored = s.explored) (hr : t.rows = s.rows) :
    Deduplicated t :=
  ⟨by simpa only [he, hr] using h.explored_iff, by simpa only [hr] using h.closed⟩

/-- A new row for an unexplored context is closed off by no row before it. -/
theorem closed_append (h : Deduplicated s) (row : Dataset.Row)
    (hc : row.decision.context ∉ s.explored) :
    (s.rows ++ [row]).Pairwise fun r r' => ∀ c, r.Measures c → r'.decision.context ≠ c := by
  refine List.pairwise_append.2 ⟨h.closed, List.pairwise_singleton .., ?_⟩
  intro r hr r' hr' c hm he
  obtain rfl : r' = row := by simpa using hr'
  exact hc ((h.explored_iff _).2 ⟨r, hr, he ▸ hm⟩)

theorem missing (h : Deduplicated s) (b : Benchmark) (root : MethodId) (d : Decision)
    (hc : d.context ∉ s.explored) : Deduplicated ((emit ⟨b.name, root, d, none⟩).on s).2 := by
  rcases on_emit ⟨b.name, root, d, none⟩ s with ⟨ds, ws, hm⟩ | ⟨f, ds, ws, hm⟩ <;> rw [hm]
  · refine ⟨fun c => ?_, ?_⟩
    · simpa [Session.rows, Session.note, Event.row?, Dataset.Row.Measures, or_and_right, exists_or]
        using h.explored_iff c
    · simpa [Session.rows, Session.note, Event.row?] using h.closed_append ⟨b.name, root, d, none⟩ hc
  · exact h.congr rfl rfl

theorem measured (h : Deduplicated s) (b : Benchmark) (root : MethodId) (d : Decision)
    (est : Estimate) (hc : d.context ∉ s.explored) :
    Deduplicated ((Explorer.emitMeasured b root d est).on s).2 := by
  rcases on_emit ⟨b.name, root, d, some est⟩ s with ⟨ds, ws, hm⟩ | ⟨f, ds, ws, hm⟩
  · rw [Explorer.emitMeasured, Exploring.on_bind_ok hm]
    simp only [Exploring.on_markExplored, Session.note, List.contains_eq_mem, hc, decide_false]
    refine ⟨fun c => ?_, ?_⟩
    · have hi := h.explored_iff c
      simp only [Session.rows] at hi
      simp [Session.rows, Event.row?, Dataset.Row.Measures, or_and_right, exists_or, hi,
        eq_comm (a := c)]
    · simpa [Session.rows, Event.row?] using h.closed_append ⟨b.name, root, d, some est⟩ hc
  · rw [Explorer.emitMeasured, Exploring.on_bind_error hm]
    exact h.congr rfl rfl

theorem step (h : Deduplicated s) (hs : Step e p s t) : Deduplicated t := by
  cases hs with
  | quiet hq => exact h.congr hq.still.1 hq.rows_eq
  | missing b root d hc => exact h.missing b root d hc
  | measured b root d est hc => exact h.measured b root d est hc

theorem run (h : Deduplicated s) (hs : ReflTransGen (Step e p) s t) : Deduplicated t := by
  induction hs with
  | refl => exact h
  | tail _ hstep ih => exact ih.step hstep

/-- No two rows hold an estimate for one context. -/
theorem countP_le_one (h : Deduplicated s) (c : Decision.Context) :
    s.rows.countP (·.Measures c) ≤ 1 := by
  have hp : (s.rows.filter (·.Measures c)).Pairwise fun _ _ => False := by
    refine (h.closed.filter _).imp_of_mem fun {r r'} hr hr' hcl => ?_
    exact hcl c (by simpa using (List.mem_filter.1 hr).2) (of_decide_eq_true (List.mem_filter.1 hr').2).2
  rw [List.countP_eq_length_filter]
  rcases hl : s.rows.filter (·.Measures c) with _ | ⟨r, _ | ⟨r', rest⟩⟩ <;> rw [hl] at hp ⊢
  · exact Nat.zero_le 1
  · exact Nat.le_refl 1
  · exact (List.rel_of_pairwise_cons hp (List.mem_cons_self ..)).elim

end Deduplicated

/-- After any requests to an explorer that began afresh, the explored contexts are exactly those with a
row that has an estimate; there is one such row at most for each context, in any roots and benchmarks;
and after it there is no row for that context at all. -/
theorem deduplication (e : Explorer W) (world : W) (workspace : Workspace)
    (dataset : Option Dataset.Writer) (requests : List Request) :
    let s := e.answerAll (Session.fresh world workspace dataset) requests
    (∀ c, c ∈ s.explored ↔ ∃ r ∈ s.rows, r.Measures c) ∧
      (∀ c, s.rows.countP (·.Measures c) ≤ 1) ∧
      ∀ before r after c, s.rows = before ++ r :: after → r.Measures c →
        ∀ r' ∈ after, r'.decision.context ≠ c := by
  intro s
  have h : Deduplicated s :=
    (Deduplicated.fresh world workspace dataset).run (e.answerAll_steps _ requests)
  refine ⟨h.explored_iff, h.countP_le_one, ?_⟩
  intro before r after c hsplit hm r' hr'
  have hcl := h.closed
  rw [hsplit, List.pairwise_append, List.pairwise_cons] at hcl
  exact hcl.2.1.1 r' hr' c hm

end Exploration

end InlineImpact
