import InlineImpact.Proofs.Decimal.Order
import InlineImpact.Proofs.Decimal.Range
import InlineImpact.Proofs.Outcome
import Mathlib

/-!
What the aggregation of a capture adds up. The bisections of a timeline split the rollovers of a process
into those before, within and after the span of an iteration, and the difference of two running totals
is the sum of the counts within, even when the totals themselves went around.
-/
namespace InlineImpact.Capture

open Decimal (rank earlier_iff_rank lt_iff_rank le_iff_rank beq_iff_rank)

/-- A rollover of the iteration's process, between its first and its last moment. -/
def Rollover.isWithin (r : Rollover) (i : Iteration) : Bool :=
  r.process = i.process && i.start ≤ r.time && r.time ≤ i.finish

/-- The counts of all rollovers within an iteration. -/
def Events.total (events : Events) (i : Iteration) : Int :=
  ((events.rollovers.filter (·.isWithin i)).map (·.count)).sum

/-- The iteration took time and something was counted in it. -/
def Events.isCounted (events : Events) (i : Iteration) : Bool :=
  i.start < i.finish && 0 < events.total i

/-- The instructions of an iteration. -/
def Events.sample (events : Events) (interval : Int) (i : Iteration) : Float :=
  Float.ofInt (events.total i * interval)

/-- The measurement that the iterations give when each is looked up among all rollovers. -/
def Events.summary (events : Events) (interval : Int) (order : List Iteration) : Measurement where
  samples := (order.filter events.isCounted).map (events.sample interval)
  discarded := (order.filter fun i => !events.isCounted i).length
  callCounts := events.calls

/-- No time is no number, and the counts of processes with iterations fit into words, as do the totals
of the spans. -/
structure Events.Countable (events : Events) : Prop where
  spans : ∀ i ∈ events.iterations, i.start.isNaN = false ∧ i.finish.isNaN = false
  rollovers : ∀ i ∈ events.iterations, ∀ r ∈ events.rollovers, r.process = i.process →
    r.time.isNaN = false ∧ fitsSigned r.count
  totals : ∀ i ∈ events.iterations, i.start < i.finish → fitsSigned (events.total i)

/-- The same without a bound on the totals of the spans, which may go around. -/
structure Events.Regular (events : Events) : Prop where
  spans : ∀ i ∈ events.iterations, i.start.isNaN = false ∧ i.finish.isNaN = false
  rollovers : ∀ i ∈ events.iterations, ∀ r ∈ events.rollovers, r.process = i.process →
    r.time.isNaN = false ∧ fitsSigned r.count

theorem Events.Countable.regular {events : Events} (h : events.Countable) : events.Regular :=
  ⟨h.spans, h.rollovers⟩

section Words

theorem toWord_toWord_add (a b : Int) : toWord (toWord a + b) = toWord (a + b) := Int.bmod_add_bmod

theorem toWord_sub_congr {a b a' b' : Int} (ha : toWord a = toWord a') (hb : toWord b = toWord b') :
    toWord (a - b) = toWord (a' - b') := by
  have hsub (a b : Int) : toWord (toWord a - toWord b) = toWord (a - b) := by
    rw [toWord, toWord, toWord, Int.bmod_sub_bmod, Int.sub_bmod_bmod]
    rfl
  rw [← hsub a, ← hsub a', ha, hb]

theorem toWord_of_fits {n : Int} (h : fitsSigned n = true) : toWord n = n := by
  have hlimit : (wordLimit : Int) = 9223372036854775808 := rfl
  rw [fitsSigned, hlimit, Bool.and_eq_true, decide_eq_true_iff, decide_eq_true_iff] at h
  rw [toWord]
  refine Int.bmod_eq_of_le_mul_two ?_ ?_ <;> (push_cast; rw [hlimit]; omega)

theorem natAbs_toWord_le (n : Int) : (toWord n).natAbs ≤ 2 ^ 63 := by
  have hlimit : (wordLimit : Int) = 9223372036854775808 := rfl
  have hlow := Int.le_bmod (x := n) (m := 2 * wordLimit) (by decide)
  have hhigh := Int.bmod_lt (x := n) (m := 2 * wordLimit) (by decide)
  push_cast at hlow hhigh
  rw [toWord]
  omega

theorem countWords_of_fits {counts : List Int} (h : ∀ n ∈ counts, fitsSigned n = true) :
    countWords counts = .ok counts := by
  rw [countWords, if_pos (List.all_eq_true.2 h)]

/-- Counts have words if each fits into one, with a sign or without. -/
theorem exists_countWords_iff {counts : List Int} : (∃ words, countWords counts = .ok words) ↔
    ∀ n ∈ counts, (fitsSigned n || fitsUnsigned n) = true := by
  rw [← List.all_eq_true (p := fun n => fitsSigned n || fitsUnsigned n), countWords]
  by_cases hsigned : counts.all fitsSigned = true
  · rw [if_pos hsigned]
    refine ⟨fun _ => List.all_eq_true.2 fun n hn => ?_, fun _ => ⟨_, rfl⟩⟩
    rw [List.all_eq_true.1 hsigned n hn, Bool.true_or]
  · rw [if_neg hsigned]
    cases counts.all fun n => fitsSigned n || fitsUnsigned n with
    | false =>
      rw [Bool.not_false, if_pos rfl]
      exact ⟨nofun, nofun⟩
    | true =>
      rw [Bool.not_true, if_neg Bool.false_ne_true]
      refine ⟨fun _ => rfl, fun _ => ?_⟩
      split <;> exact ⟨_, rfl⟩

/-- A running total is the sum of the counts before it, up to the range of words. -/
theorem toWord_runningTotals (counts : List Int) (start : Int) {k : ℕ} (hk : k ≤ counts.length) :
    toWord ((runningTotals start counts).getD k 0) = toWord (start + (counts.take k).sum) := by
  induction counts generalizing start k with
  | nil =>
    obtain rfl : k = 0 := Nat.le_zero.1 hk
    simp [runningTotals]
  | cons n counts ih =>
    cases k with
    | zero => simp [runningTotals]
    | succ k =>
      have := ih (toWord (start + n)) (Nat.le_of_succ_le_succ hk)
      rw [runningTotals, List.getD_cons_succ, this, toWord_toWord_add, List.take_succ_cons,
        List.sum_cons, add_assoc]

end Words

section Bisection

theorem bisect_bounds (p : Float → Bool) (times : Array Float) {low high : ℕ} (h : low ≤ high) :
    low ≤ bisect p times low high ∧ bisect p times low high ≤ high := by
  induction low, high using bisect.induct p times with
  | case1 low high hlt middle hmiddle ih =>
    rw [bisect, dif_pos hlt, if_pos hmiddle]
    have hih := ih (by omega)
    exact ⟨(by omega : low ≤ middle + 1).trans hih.1, hih.2⟩
  | case2 low high hlt middle hmiddle ih =>
    rw [bisect, dif_pos hlt, if_neg hmiddle]
    have hih := ih (by omega)
    exact ⟨hih.1, hih.2.trans (by omega)⟩
  | case3 low high hlt =>
    rw [bisect, dif_neg hlt]
    exact ⟨le_rfl, h⟩

/-- When the times that satisfy `p` come first, their number is found. -/
theorem bisect_append (p : Float → Bool) {front back : List Float} (hfront : ∀ x ∈ front, p x = true)
    (hback : ∀ x ∈ back, p x = false) {low high : ℕ} (hlow : low ≤ front.length)
    (hhigh : front.length ≤ high) (hsize : high ≤ (front ++ back).length) :
    bisect p (front ++ back).toArray low high = front.length := by
  have hp (k : ℕ) (hk : k < (front ++ back).length) :
      p ((front ++ back).toArray.getD k 0.0) = true ↔ k < front.length := by
    rw [Array.getD_eq_getD_getElem?, List.getElem?_toArray]
    by_cases hlt : k < front.length
    · rw [List.getElem?_append_left hlt, List.getElem?_eq_getElem hlt]
      simp [hfront _ (List.getElem_mem hlt), hlt]
    · have hlt' : k - front.length < back.length := by
        rw [List.length_append] at hk
        omega
      rw [List.getElem?_append_right (not_lt.1 hlt), List.getElem?_eq_getElem hlt']
      simp [hback _ (List.getElem_mem hlt'), hlt]
  induction low, high using bisect.induct p (front ++ back).toArray with
  | case1 low high h middle hmiddle ih =>
    have := (hp middle (by omega)).1 hmiddle
    rw [bisect, dif_pos h, if_pos hmiddle]
    exact ih this hhigh hsize
  | case2 low high h middle hmiddle ih =>
    have := (hp middle (by omega)).not.1 hmiddle
    rw [bisect, dif_pos h, if_neg hmiddle]
    exact ih hlow (not_lt.1 this) (by omega)
  | case3 low high h =>
    rw [bisect, dif_neg h]
    omega

theorem filter_append_filter {α : Type} {p : α → Bool} {l : List α}
    (h : l.Pairwise fun a b => p b = true → p a = true) : l.filter p ++ l.filter (!p ·) = l := by
  induction l with
  | nil => rfl
  | cons a l ih =>
    obtain ⟨ha, hl⟩ := List.pairwise_cons.1 h
    by_cases hp : p a = true
    · simp [hp, ih hl]
    · have hnone : ∀ b ∈ l, p b = false := fun b hb => Bool.eq_false_iff.2 fun hpb => hp (ha b hb hpb)
      have hfront : l.filter p = [] := List.filter_eq_nil_iff.2 fun b hb => Bool.eq_false_iff.1 (hnone b hb)
      have hback : l.filter (!p ·) = l := List.filter_eq_self.2 fun b hb => by rw [hnone b hb]; rfl
      rw [List.filter_cons_of_neg hp, List.filter_cons_of_pos (by simpa using hp), hfront, hback,
        List.nil_append]

/-- In order of time, the rollovers whose time satisfies `p` are the first ones, and are counted. -/
theorem bisect_map_time {p : Float → Bool} {l : List Rollover}
    (h : l.Pairwise fun a b => p b.time = true → p a.time = true) :
    bisect p (l.map (·.time)).toArray 0 (l.map (·.time)).length = (l.filter fun r => p r.time).length := by
  have hsplit := congrArg (List.map (·.time)) (filter_append_filter h)
  rw [List.map_append] at hsplit
  have hlength := congrArg List.length hsplit
  rw [List.length_append, List.length_map] at hlength
  conv_lhs => rw [← hsplit]
  rw [bisect_append p _ _ (Nat.zero_le _) _ le_rfl, List.length_map]
  · intro x hx
    obtain ⟨r, hr, rfl⟩ := List.mem_map.1 hx
    exact (List.mem_filter.1 hr).2
  · intro x hx
    obtain ⟨r, hr, rfl⟩ := List.mem_map.1 hx
    simpa using (List.mem_filter.1 hr).2
  · rw [List.length_append, List.length_map]
    omega

theorem take_filter_length {α : Type} {p : α → Bool} {l : List α}
    (h : l.Pairwise fun a b => p b = true → p a = true) : l.take (l.filter p).length = l.filter p := by
  have := @List.take_left _ (l.filter p) (l.filter (!p ·))
  rwa [filter_append_filter h] at this

end Bisection

section Timelines

/-- What satisfies `q` satisfies `p` as well or is of the rest. -/
theorem sum_filter_of_imp {α : Type} (f : α → Int) {l : List α} {p q : α → Bool}
    (h : ∀ a ∈ l, p a = true → q a = true) : ((l.filter q).map f).sum =
      ((l.filter p).map f).sum + ((l.filter fun a => !p a && q a).map f).sum := by
  induction l with
  | nil => rfl
  | cons a l ih =>
    have ih := ih fun a ha => h a (.tail _ ha)
    have ha := h a (.head _)
    cases hp : p a <;> cases hq : q a <;> simp_all <;> omega

/-- The timeline of some rollovers in order of time. -/
def Timeline.ofOrdered (own : List Rollover) : Timeline :=
  ⟨(own.map (·.time)).toArray, (runningTotals 0 (own.map (·.count))).toArray⟩

/-- The number of times before a moment, as bisection finds it. -/
def before (times : List Float) (x : Float) : ℕ := bisect (earlier · x) times.toArray 0 times.length

/-- The number of times up to a moment, as bisection finds it. -/
def upTo (times : List Float) (x : Float) : ℕ := bisect (fun y => !earlier x y) times.toArray 0 times.length

/-- A timeline gives the difference of the totals at two places, in whatever order its times are. -/
theorem between_eq_sub {times : List Float} {words : List Int} (hlength : words.length = times.length)
    (start finish : Float) :
    (⟨times.toArray, (runningTotals 0 words).toArray⟩ : Timeline).between start finish =
      toWord ((words.take (upTo times finish)).sum - (words.take (before times start)).sum) := by
  have htotal (k : ℕ) (hk : k ≤ times.length) :
      toWord ((runningTotals 0 words).toArray.getD k 0) = toWord (words.take k).sum := by
    rw [Array.getD_eq_getD_getElem?, List.getElem?_toArray, ← List.getD_eq_getElem?_getD,
      toWord_runningTotals _ _ (hlength ▸ hk), zero_add]
  exact toWord_sub_congr (htotal _ (bisect_bounds _ _ (Nat.zero_le _)).2)
    (htotal _ (bisect_bounds _ _ (Nat.zero_le _)).2)

/-- The rollovers before a moment are the first ones in order of time, and so are those up to it. -/
theorem pairwise_earlier {own : List Rollover} (horder : own.Pairwise fun a b => rank a.time ≤ rank b.time)
    (x : Float) : own.Pairwise fun a b => earlier b.time x = true → earlier a.time x = true :=
  horder.imp fun hab hb => earlier_iff_rank.2 (hab.trans_lt (earlier_iff_rank.1 hb))

theorem pairwise_not_earlier {own : List Rollover} (horder : own.Pairwise fun a b => rank a.time ≤ rank b.time)
    (x : Float) : own.Pairwise fun a b => (!earlier x b.time) = true → (!earlier x a.time) = true :=
  horder.imp fun {a b} hab hb => by
    rw [Bool.not_eq_true', Bool.eq_false_iff, ne_eq, earlier_iff_rank, not_lt] at hb ⊢
    exact hab.trans hb

/-- Between the two places of a span stand the rollovers within it. -/
theorem sum_take_sub_of_ordered (f : Rollover → Int) {own : List Rollover} {start finish : Float}
    (horder : own.Pairwise fun a b => rank a.time ≤ rank b.time) (hspan : rank start ≤ rank finish) :
    ((own.take (upTo (own.map (·.time)) finish)).map f).sum -
        ((own.take (before (own.map (·.time)) start)).map f).sum =
      ((own.filter fun r => !earlier r.time start && !earlier finish r.time).map f).sum := by
  have hbefore := pairwise_earlier horder start
  have hupto := pairwise_not_earlier horder finish
  have hsub : ∀ r ∈ own, earlier r.time start = true → (!earlier finish r.time) = true := by
    intro r _ hr
    rw [Bool.not_eq_true', Bool.eq_false_iff, ne_eq, earlier_iff_rank, not_lt]
    exact ((earlier_iff_rank.1 hr).trans_le hspan).le
  rw [upTo, before, bisect_map_time (p := (earlier · start)) hbefore,
    bisect_map_time (p := fun x => !earlier finish x) hupto, take_filter_length hbefore,
    take_filter_length hupto, sum_filter_of_imp _ hsub, add_sub_cancel_left]

/-- The difference of two running totals is what happened between them. -/
theorem between_ofOrdered {own : List Rollover} {start finish : Float}
    (horder : own.Pairwise fun a b => rank a.time ≤ rank b.time) (hspan : rank start ≤ rank finish) :
    (Timeline.ofOrdered own).between start finish =
      toWord ((own.filter fun r => !earlier r.time start && !earlier finish r.time).map (·.count)).sum := by
  rw [Timeline.ofOrdered, between_eq_sub (by simp), ← List.map_take, ← List.map_take,
    sum_take_sub_of_ordered _ horder hspan]

/-- Sorting by a comparison that is that of some key on the members of a list. -/
theorem pairwise_mergeSort_of_key {α κ : Type} [LinearOrder κ] (key : α → κ) {le : α → α → Bool} {l : List α}
    (h : ∀ a ∈ l, ∀ b ∈ l, le a b = decide (key a ≤ key b)) :
    (l.mergeSort le).Pairwise fun a b => key a ≤ key b := by
  have hsort := List.map_mergeSort (f := id) (s := fun a b => decide (key a ≤ key b)) h
  rw [List.map_id, List.map_id] at hsort
  have hpairwise := @List.pairwise_mergeSort _ (fun a b => decide (key a ≤ key b))
    (fun a b c => by simpa using le_trans) (fun a b => by simpa using le_total _ _) l
  rw [hsort]
  exact hpairwise.imp of_decide_eq_true

theorem Rollover.le_eq {a b : Rollover} (ha : a.time.isNaN = false) (hb : b.time.isNaN = false) :
    Rollover.le a b = decide (toLex (rank a.time, a.count) ≤ toLex (rank b.time, b.count)) := by
  rw [Rollover.le, Bool.eq_iff_iff]
  simp only [Bool.or_eq_true, Bool.and_eq_true, decide_eq_true_eq, Prod.Lex.toLex_le_toLex,
    lt_iff_rank ha hb, beq_iff_rank ha hb]

/-- The order of the iterations: by start, end and process. -/
def Iteration.key (i : Iteration) : (ℤ ×ₗ ℤ ×ₗ ℤ) ×ₗ (ℤ ×ₗ ℤ ×ₗ ℤ) ×ₗ ℤ :=
  toLex (rank i.start, toLex (rank i.finish, i.process))

theorem Iteration.le_eq {a b : Iteration} (ha : a.start.isNaN = false ∧ a.finish.isNaN = false)
    (hb : b.start.isNaN = false ∧ b.finish.isNaN = false) :
    Iteration.le a b = decide (a.key ≤ b.key) := by
  rw [Iteration.le, Bool.eq_iff_iff, Iteration.key, Iteration.key]
  simp only [Bool.or_eq_true, Bool.and_eq_true, decide_eq_true_eq, Prod.Lex.toLex_le_toLex,
    lt_iff_rank ha.1 hb.1, beq_iff_rank ha.1 hb.1, lt_iff_rank ha.2 hb.2, beq_iff_rank ha.2 hb.2]

variable {events : Events}

/-- The rollovers of a process in order of time. -/
def Events.own (events : Events) (process : Int) : List Rollover :=
  (events.rollovers.filter (·.process = process)).mergeSort Rollover.le

theorem mem_own {process : Int} {r : Rollover} :
    r ∈ events.own process ↔ r ∈ events.rollovers ∧ r.process = process := by
  rw [Events.own, List.mem_mergeSort, List.mem_filter, decide_eq_true_iff]

theorem own_ordered {process : Int}
    (h : ∀ r ∈ events.rollovers, r.process = process → r.time.isNaN = false) :
    (events.own process).Pairwise fun a b => rank a.time ≤ rank b.time := by
  have htime (r : Rollover) (hr : r ∈ events.rollovers.filter (·.process = process)) : r.time.isNaN = false :=
    h r (List.mem_of_mem_filter hr) (of_decide_eq_true (List.mem_filter.1 hr).2)
  have hsorted := pairwise_mergeSort_of_key (l := events.rollovers.filter (·.process = process))
    (fun r : Rollover => toLex (rank r.time, r.count)) fun a ha b hb =>
      Rollover.le_eq (htime a ha) (htime b hb)
  exact hsorted.imp fun hab => (Prod.Lex.toLex_le_toLex'.1 hab).1

theorem ofRollovers_eq (h : events.Regular) {i : Iteration} (hi : i ∈ events.iterations) :
    Timeline.ofRollovers events.rollovers i.process = .ok (.ofOrdered (events.own i.process)) := by
  have hcounts : ∀ n ∈ (events.own i.process).map (·.count), fitsSigned n = true := by
    intro n hn
    obtain ⟨r, hr, rfl⟩ := List.mem_map.1 hn
    obtain ⟨hr, hown⟩ := mem_own.1 hr
    exact (h.rollovers i hi r hr hown).2
  rw [Timeline.ofRollovers, ← Events.own, countWords_of_fits hcounts]
  rfl

/-- The rollovers of a process between the ends of a span are those within it. -/
theorem filter_own_perm {i : Iteration} (hstart : i.start.isNaN = false) (hfinish : i.finish.isNaN = false)
    (htimes : ∀ r ∈ events.rollovers, r.process = i.process → r.time.isNaN = false) :
    ((events.own i.process).filter fun r => !earlier r.time i.start && !earlier i.finish r.time).Perm
      (events.rollovers.filter (·.isWithin i)) := by
  have hwithin : ∀ r ∈ events.rollovers,
      (!earlier r.time i.start && !earlier i.finish r.time && decide (r.process = i.process)) =
        r.isWithin i := by
    intro r hr
    by_cases hown : r.process = i.process
    · have htime := htimes r hr hown
      rw [Rollover.isWithin, Bool.eq_iff_iff]
      simp only [Bool.and_eq_true, Bool.not_eq_true', Bool.eq_false_iff, ne_eq, decide_eq_true_eq,
        earlier_iff_rank, not_lt, le_iff_rank hstart htime, le_iff_rank htime hfinish]
      tauto
    · simp [Rollover.isWithin, hown]
  have hperm := (List.mergeSort_perm (events.rollovers.filter (·.process = i.process)) Rollover.le).filter
    fun r => !earlier r.time i.start && !earlier i.finish r.time
  rwa [List.filter_filter, List.filter_congr hwithin] at hperm

/-- What a timeline gives for the span of an iteration is the word of the iteration's total. -/
theorem between_eq_toWord_total (h : events.Regular) {i : Iteration} (hi : i ∈ events.iterations)
    (hspan : i.start < i.finish) :
    (Timeline.ofOrdered (events.own i.process)).between i.start i.finish = toWord (events.total i) := by
  obtain ⟨hstart, hfinish⟩ := h.spans i hi
  have htimes (r : Rollover) (hr : r ∈ events.rollovers) (hown : r.process = i.process) : r.time.isNaN = false :=
    (h.rollovers i hi r hr hown).1
  rw [between_ofOrdered (own_ordered htimes) ((lt_iff_rank hstart hfinish).1 hspan).le,
    ((filter_own_perm hstart hfinish htimes).map (·.count)).sum_eq]
  rfl

theorem between_eq_total (h : events.Countable) {i : Iteration} (hi : i ∈ events.iterations)
    (hspan : i.start < i.finish) :
    (Timeline.ofOrdered (events.own i.process)).between i.start i.finish = events.total i :=
  (between_eq_toWord_total h.regular hi hspan).trans (toWord_of_fits (h.totals i hi hspan))

end Timelines

section Aggregation

variable {events : Events} {interval : Int}

theorem get?_map_of_mem {α κ : Type} [DecidableEq κ] (f : κ → α) {k : κ} {l : List κ} (h : k ∈ l) :
    Keyed.get? k (l.map fun k => (k, f k)) = some (f k) := by
  refine Keyed.get?_of_unique (List.mem_map_of_mem h) fun w hw => ?_
  obtain ⟨k', -, heq⟩ := List.mem_map.1 hw
  obtain ⟨rfl, rfl⟩ := Prod.mk.inj heq
  rfl

/-- The timelines of all processes that have iterations. -/
def Events.lines (events : Events) : Keyed Int Timeline :=
  (events.iterations.map (·.process)).eraseDups.map fun process =>
    (process, .ofOrdered (events.own process))

theorem get?_lines {i : Iteration} (hi : i ∈ events.iterations) :
    events.lines.get? i.process = some (.ofOrdered (events.own i.process)) :=
  get?_map_of_mem _ (List.mem_eraseDups.2 (List.mem_map_of_mem hi))

theorem timelines_eq (h : events.Regular) : timelines events = .ok events.lines := by
  refine mapM_eq_ok fun process hprocess => ?_
  obtain ⟨i, hi, rfl⟩ := List.mem_map.1 (List.mem_eraseDups.1 hprocess)
  rw [ofRollovers_eq h hi]
  rfl

/-- What an iteration contributes: its instructions if something was counted, as a finite double. -/
def Events.contribution (events : Events) (interval : Int) (i : Iteration) : Except Failure (Option Float) :=
  if events.isCounted i then
    if (events.sample interval i).isFinite then .ok (some (events.sample interval i))
    else .error (.outOfRange "instructions")
  else .ok none

theorem sample?_eq (h : events.Countable) {i : Iteration} (hi : i ∈ events.iterations) :
    sample? (.ofOrdered (events.own i.process)) interval i = events.contribution interval i := by
  obtain ⟨hstart, hfinish⟩ := h.spans i hi
  rw [sample?, Events.contribution]
  by_cases hspan : i.start < i.finish
  · have hnot : ¬ i.finish ≤ i.start := by
      rw [le_iff_rank hfinish hstart, not_le]
      exact (lt_iff_rank hstart hfinish).1 hspan
    rw [if_neg hnot, between_eq_total h hi hspan]
    by_cases htotal : events.total i ≤ 0
    · simp [Events.isCounted, htotal, not_lt.2 htotal]
    · have hcounted : events.isCounted i = true := by simp [Events.isCounted, hspan, not_le.1 htotal]
      have hfloat : Decimal.floatOfInt? (events.total i * interval) =
          if (events.sample interval i).isFinite then some (events.sample interval i) else none := rfl
      simp only [htotal, hcounted, if_true, if_false, hfloat]
      by_cases hfinite : (events.sample interval i).isFinite = true
      · rw [if_pos hfinite, if_pos hfinite]
      · rw [if_neg hfinite, if_neg hfinite]
  · have hle : i.finish ≤ i.start := by
      rw [le_iff_rank hfinish hstart, ← not_lt]
      exact fun hlt => hspan ((lt_iff_rank hstart hfinish).2 hlt)
    simp [Events.isCounted, hle, hspan]

theorem contribution_eq_ok {i : Iteration}
    (h : events.isCounted i = true → (events.sample interval i).isFinite = true) :
    events.contribution interval i =
      .ok (if events.isCounted i then some (events.sample interval i) else none) := by
  rw [Events.contribution]
  by_cases hcounted : events.isCounted i = true
  · rw [if_pos hcounted, if_pos (h hcounted), if_pos hcounted]
  · rw [if_neg hcounted, if_neg hcounted]

theorem contribution_error_or_ok (i : Iteration) :
    events.contribution interval i = .error (.outOfRange "instructions") ∨
      ∃ x, events.contribution interval i = .ok x := by
  rw [Events.contribution]
  split
  · split
    · exact .inr ⟨_, rfl⟩
    · exact .inl rfl
  · exact .inr ⟨_, rfl⟩

theorem filterMap_map_ite {α β : Type} (p : α → Bool) (f : α → β) (l : List α) :
    (l.map fun a => if p a then some (f a) else none).filterMap id = (l.filter p).map f := by
  induction l with
  | nil => rfl
  | cons a l ih => cases ha : p a <;> simpa [ha] using ih

/-- The contributions sorted into samples and those that count nothing. -/
theorem summary_eq (order : List Iteration) {found : List (Option Float)}
    (h : found = order.map fun i => if events.isCounted i then some (events.sample interval i) else none) :
    ({ samples := found.filterMap id
       discarded := (found.filter Option.isNone).length
       callCounts := events.calls } : Measurement) = events.summary interval order := by
  have hsamples : found.filterMap id = (order.filter events.isCounted).map (events.sample interval) :=
    h ▸ filterMap_map_ite _ _ order
  have hdiscarded : (found.filter Option.isNone).length =
      (order.filter fun i => !events.isCounted i).length := by
    subst h
    clear hsamples
    induction order with
    | nil => rfl
    | cons i order ih => cases hi : events.isCounted i <;> simp [hi, ih]
  rw [Events.summary, hsamples, hdiscarded]

/-- Aggregation gives what the iterations add up to, one by one in the order of their spans, provided that
each sample is a finite double. -/
theorem aggregate_eq (h : events.Countable) :
    aggregate events interval =
      if events.iterations.all fun i => !events.isCounted i || (events.sample interval i).isFinite then
        .ok (events.summary interval (events.iterations.mergeSort Iteration.le))
      else .error (.outOfRange "instructions") := by
  generalize horder : events.iterations.mergeSort Iteration.le = order
  have hmem : ∀ i, i ∈ order ↔ i ∈ events.iterations := fun i => by rw [← horder, List.mem_mergeSort]
  have hstep : ∀ i ∈ order, sample? ((events.lines.get? i.process).getD ⟨#[], #[]⟩) interval i =
      events.contribution interval i := fun i hi => by
    rw [get?_lines ((hmem i).1 hi), Option.getD_some, sample?_eq h ((hmem i).1 hi)]
  rw [aggregate, timelines_eq h.regular]
  simp only [bind, Except.bind, horder]
  by_cases hfinite : ∀ i ∈ order, events.isCounted i = true → (events.sample interval i).isFinite = true
  · rw [mapM_eq_ok fun i hi => (hstep i hi).trans (contribution_eq_ok (hfinite i hi)), if_pos]
    · exact congrArg Except.ok (summary_eq order rfl)
    · refine List.all_eq_true.2 fun i hi => ?_
      have := hfinite i ((hmem i).2 hi)
      cases hcounted : events.isCounted i with
      | false => rfl
      | true => exact this hcounted
  · push Not at hfinite
    obtain ⟨i, hi, hcounted, hbad⟩ := hfinite
    rw [mapM_eq_error fun i hi => by rw [hstep i hi]; exact contribution_error_or_ok i, if_neg]
    · intro hall
      have := List.all_eq_true.1 hall i ((hmem i).1 hi)
      rw [hcounted] at this
      exact hbad this
    · exact ⟨i, hi, by rw [hstep i hi, Events.contribution, if_pos hcounted, if_neg hbad]⟩

theorem natAbs_le_of_fits {n : Int} (h : fitsSigned n = true) : n.natAbs ≤ 2 ^ 63 := by
  have hlimit : (wordLimit : Int) = 9223372036854775808 := rfl
  rw [fitsSigned, hlimit, Bool.and_eq_true, decide_eq_true_iff, decide_eq_true_iff] at h
  omega

/-- The instructions of a word of rollovers are out of the range of doubles only for an absurd interval. -/
theorem isFinite_ofInt_mul (hinterval : interval.natAbs < 2 ^ 960) {n : Int} (hn : n.natAbs ≤ 2 ^ 63) :
    (Float.ofInt (n * interval)).isFinite = true := by
  refine Decimal.isFinite_ofInt ?_
  rw [Int.natAbs_mul, show 1023 = 63 + 960 from rfl, pow_add]
  exact Nat.mul_lt_mul_of_le_of_lt hn hinterval (by positivity)

theorem isFinite_sample (h : events.Countable) (hinterval : interval.natAbs < 2 ^ 960) {i : Iteration}
    (hi : i ∈ events.iterations) (hcounted : events.isCounted i = true) :
    (events.sample interval i).isFinite = true := by
  rw [Events.isCounted, Bool.and_eq_true, decide_eq_true_iff] at hcounted
  exact isFinite_ofInt_mul hinterval (natAbs_le_of_fits (h.totals i hi hcounted.1))

theorem exists_sample? (t : Timeline) (hinterval : interval.natAbs < 2 ^ 960) (i : Iteration) :
    ∃ x, sample? t interval i = .ok x := by
  have hfinite : Decimal.floatOfInt? (t.between i.start i.finish * interval) =
      some (Float.ofInt (t.between i.start i.finish * interval)) :=
    if_pos (isFinite_ofInt_mul hinterval (natAbs_toWord_le _))
  rw [sample?]
  dsimp only
  rw [hfinite]
  split
  · exact ⟨none, rfl⟩
  · split <;> exact ⟨_, rfl⟩

theorem exists_ofRollovers_iff {process : Int} :
    (∃ t, Timeline.ofRollovers events.rollovers process = .ok t) ↔
      ∀ r ∈ events.rollovers, r.process = process → (fitsSigned r.count || fitsUnsigned r.count) = true := by
  have hwords : (∃ t, Timeline.ofRollovers events.rollovers process = .ok t) ↔
      ∃ words, countWords ((events.own process).map (·.count)) = .ok words := by
    rw [Timeline.ofRollovers, ← Events.own]
    cases countWords ((events.own process).map (·.count)) with
    | error e => exact ⟨nofun, nofun⟩
    | ok words => exact ⟨fun _ => ⟨_, rfl⟩, fun _ => ⟨_, rfl⟩⟩
  rw [hwords, exists_countWords_iff]
  refine ⟨fun h r hr hown => h _ (List.mem_map_of_mem (mem_own.2 ⟨hr, hown⟩)), fun h n hn => ?_⟩
  obtain ⟨r, hr, rfl⟩ := List.mem_map.1 hn
  exact h r (mem_own.1 hr).1 (mem_own.1 hr).2

/-- Each iteration finds the timeline of its process. -/
theorem exists_line {lines : Keyed Int Timeline} (h : timelines events = .ok lines) {i : Iteration}
    (hi : i ∈ events.iterations) :
    ∃ t, Timeline.ofRollovers events.rollovers i.process = .ok t ∧ lines.get? i.process = some t := by
  obtain ⟨b, hb, hprocess⟩ := exists_of_mapM_eq_ok h i.process (List.mem_eraseDups.2 (List.mem_map_of_mem hi))
  obtain ⟨t, ht, hpair⟩ := exists_of_bind_eq_ok hprocess
  cases hpair
  refine ⟨t, ht, Keyed.get?_of_unique hb fun w hw => ?_⟩
  obtain ⟨process, -, hprocess'⟩ := exists_of_mem_mapM h _ hw
  obtain ⟨t', ht', hpair⟩ := exists_of_bind_eq_ok hprocess'
  cases hpair
  exact Except.ok.inj (ht'.symm.trans ht)

/-- What can be aggregated are counts of sixty-four bits, with a sign or without. -/
theorem exists_aggregate_iff (hinterval : interval.natAbs < 2 ^ 960) :
    (∃ m, aggregate events interval = .ok m) ↔ ∀ i ∈ events.iterations, ∀ r ∈ events.rollovers,
      r.process = i.process → (fitsSigned r.count || fitsUnsigned r.count) = true := by
  constructor
  · rintro ⟨m, hm⟩ i hi
    obtain ⟨lines, hlines, -⟩ := exists_of_bind_eq_ok hm
    obtain ⟨t, ht, -⟩ := exists_line hlines hi
    exact exists_ofRollovers_iff.1 ⟨t, ht⟩
  · intro hcounts
    have hlines : ∃ lines, timelines events = .ok lines := by
      refine exists_mapM_eq_ok fun process hprocess => ?_
      obtain ⟨i, hi, rfl⟩ := List.mem_map.1 (List.mem_eraseDups.1 hprocess)
      obtain ⟨t, ht⟩ := exists_ofRollovers_iff.2 (hcounts i hi)
      rw [ht]
      exact ⟨_, rfl⟩
    obtain ⟨lines, hlines⟩ := hlines
    obtain ⟨found, hfound⟩ := exists_mapM_eq_ok (l := events.iterations.mergeSort Iteration.le) fun i _ =>
      exists_sample? ((lines.get? i.process).getD ⟨#[], #[]⟩) hinterval i
    rw [aggregate, hlines]
    simp only [bind, Except.bind, hfound]
    exact ⟨_, rfl⟩

theorem load_of_readEvents {ws : Workspace} {path : String} (h : readEvents ws path = .ok events) :
    load ws path interval = aggregate events interval := by
  rw [load, h]
  rfl

theorem callCounts_of_aggregate {m : Measurement} (h : aggregate events interval = .ok m) :
    m.callCounts = events.calls := by
  obtain ⟨lines, -, h⟩ := exists_of_bind_eq_ok h
  obtain ⟨found, -, h⟩ := exists_of_bind_eq_ok h
  rw [← Except.ok.inj h]

theorem length_summary (order : List Iteration) :
    ((events.summary interval order).samples.length : Int) + (events.summary interval order).discarded =
      order.length := by
  rw [Events.summary, List.length_map]
  have := List.length_eq_length_filter_add events.isCounted (l := order)
  push_cast [this]
  rfl

/-- The rollovers of processes with iterations, in any order and beside any others. -/
theorem Events.Countable.of_perm (h : events.Countable) {rollovers : List Rollover}
    (hperm : ∀ i ∈ events.iterations,
      (rollovers.filter (·.process = i.process)).Perm (events.rollovers.filter (·.process = i.process))) :
    ({ events with rollovers := rollovers } : Events).Countable ∧
      ∀ i ∈ events.iterations, ({ events with rollovers := rollovers } : Events).total i = events.total i := by
  have htotal : ∀ i ∈ events.iterations,
      ({ events with rollovers := rollovers } : Events).total i = events.total i := by
    intro i hi
    have hown (l : List Rollover) : (l.filter (·.process = i.process)).filter (·.isWithin i) =
        l.filter (·.isWithin i) := by
      rw [List.filter_filter]
      refine List.filter_congr fun r _ => ?_
      cases hr : decide (r.process = i.process) <;> simp [Rollover.isWithin, hr]
    have := ((hperm i hi).filter (·.isWithin i)).map (·.count)
    rw [hown, hown] at this
    exact this.sum_eq
  refine ⟨⟨h.spans, fun i hi r hr hp => ?_, fun i hi hspan => ?_⟩, htotal⟩
  · have hr := (hperm i hi).subset (List.mem_filter.2 ⟨hr, decide_eq_true hp⟩)
    exact h.rollovers i hi r (List.mem_of_mem_filter hr) hp
  · rw [htotal i hi]
    exact h.totals i hi hspan

/-- Captures with the same iterations and the same totals measure the same. -/
theorem aggregate_congr {events' : Events} (h : events.Countable) (h' : events'.Countable)
    (hiterations : events'.iterations = events.iterations) (hcalls : events'.calls = events.calls)
    (htotal : ∀ i ∈ events.iterations, events'.total i = events.total i) :
    aggregate events' interval = aggregate events interval := by
  have hcounted : ∀ i ∈ events.iterations, events'.isCounted i = events.isCounted i := fun i hi => by
    rw [Events.isCounted, Events.isCounted, htotal i hi]
  have hsample : ∀ i ∈ events.iterations, events'.sample interval i = events.sample interval i :=
    fun i hi => by rw [Events.sample, Events.sample, htotal i hi]
  have hall : (events.iterations.all fun i => !events'.isCounted i || (events'.sample interval i).isFinite) =
      events.iterations.all fun i => !events.isCounted i || (events.sample interval i).isFinite := by
    rw [Bool.eq_iff_iff, List.all_eq_true, List.all_eq_true]
    exact forall₂_congr fun i hi => by rw [hcounted i hi, hsample i hi]
  have hsummary : events'.summary interval (events.iterations.mergeSort Iteration.le) =
      events.summary interval (events.iterations.mergeSort Iteration.le) := by
    have hmem : ∀ i ∈ events.iterations.mergeSort Iteration.le, i ∈ events.iterations := fun i hi =>
      List.mem_mergeSort.1 hi
    have hkept := List.filter_congr fun i hi => hcounted i (hmem i hi)
    have hdropped := List.filter_congr fun i hi => congrArg (!·) (hcounted i (hmem i hi))
    rw [Events.summary, Events.summary, hcalls, hkept, hdropped,
      List.map_congr_left fun i hi => hsample i (hmem i (List.mem_of_mem_filter hi))]
  rw [aggregate_eq h, aggregate_eq h', hiterations, hall, hsummary]

end Aggregation

/-- Aggregation by sorting, running totals and bisection is the sum over all rollovers within each iteration:
the iterations, by start, end and process, give a sample each if they took time and something was counted,
and are discarded otherwise. Rollovers of other processes have no part in it. -/
theorem aggregate_refines_summary (events : Events) (interval : Int) (h : events.Countable) :
    (∃ order : List Iteration, order.Perm events.iterations ∧
      order.Pairwise (fun a b => Iteration.le a b = true) ∧
      aggregate events interval =
        if events.iterations.all fun i => !events.isCounted i || (events.sample interval i).isFinite then
          .ok (events.summary interval order)
        else .error (.outOfRange "instructions")) ∧
    (interval.natAbs < 2 ^ 960 → ∃ m, aggregate events interval = .ok m) ∧
    (∀ m, aggregate events interval = .ok m →
      (m.samples.length : Int) + m.discarded = events.iterations.length) ∧
    ∀ rollovers : List Rollover, (∀ i ∈ events.iterations,
        (rollovers.filter (·.process = i.process)).Perm (events.rollovers.filter (·.process = i.process))) →
      aggregate { events with rollovers := rollovers } interval = aggregate events interval := by
  refine ⟨⟨_, List.mergeSort_perm _ Iteration.le, ?_, aggregate_eq h⟩, fun hinterval => ?_, fun m hm => ?_,
    fun rollovers hperm => ?_⟩
  · have hkey := pairwise_mergeSort_of_key (l := events.iterations) Iteration.key fun a ha b hb =>
      Iteration.le_eq (h.spans a ha) (h.spans b hb)
    refine hkey.imp_of_mem fun {a b} ha hb hab => ?_
    rw [Iteration.le_eq (h.spans a (List.mem_mergeSort.1 ha)) (h.spans b (List.mem_mergeSort.1 hb))]
    exact decide_eq_true hab
  · refine ⟨_, (aggregate_eq h).trans (if_pos (List.all_eq_true.2 fun i hi => ?_))⟩
    cases hcounted : events.isCounted i with
    | false => rfl
    | true => exact isFinite_sample h hinterval hi hcounted
  · rw [aggregate_eq h] at hm
    split at hm
    · cases hm
      rw [length_summary, List.length_mergeSort]
    · cases hm
  · obtain ⟨hcountable, htotal⟩ := h.of_perm hperm
    exact aggregate_congr h hcountable rfl rfl htotal

/-- Two processes, one of which counts so much before its second iteration that the totals go around. -/
def wrappedAround : Events where
  rollovers := [⟨5.0, 1, 3⟩, ⟨2.0, 1, 9223372036854775807⟩, ⟨Decimal.infinity, 1, -4⟩, ⟨5.0, 2, 7⟩,
    ⟨1.0, 1, 9223372036854775807⟩]
  iterations := [⟨4.0, 6.0, 1⟩, ⟨1.0, 1.5, 1⟩, ⟨6.0, 4.0, 1⟩, ⟨5.0, 5.5, 2⟩, ⟨6.0, Decimal.infinity, 1⟩]

theorem aggregate_wrappedAround : wrappedAround.Countable ∧
    ∃ m, aggregate wrappedAround 100000 = .ok m ∧ (m.samples.length : Int) + m.discarded = 5 := by
  have hcountable : wrappedAround.Countable := ⟨by decide +kernel, by decide +kernel, by decide +kernel⟩
  obtain ⟨-, hok, hlength, -⟩ := aggregate_refines_summary wrappedAround 100000 hcountable
  obtain ⟨m, hm⟩ := hok (by decide +kernel)
  exact ⟨hcountable, m, hm, hlength m hm⟩

end InlineImpact.Capture
