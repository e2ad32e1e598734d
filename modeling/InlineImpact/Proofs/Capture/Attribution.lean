import InlineImpact.Proofs.Capture.Aggregate
import Mathlib

/-!
To which iterations a rollover is attributed when the spans of a process do not overlap. A span has both its ends,
so a rollover at the moment that ends one iteration and starts the next one counts in both; any other counts
once at most. The bisections cut a window of places out of the rollovers of a process, and windows of different
iterations have only such rollovers in common, even when no order of time can be made.
-/
namespace InlineImpact.Capture

open Decimal (rank lt_iff_rank le_iff_rank beq_iff_rank earlier_iff_rank isNaN_of_le rank_lt_of_isNaN)

/-- The iteration ends after its start. -/
def Iteration.takesTime (i : Iteration) : Bool := !decide (i.finish ≤ i.start)

/-- The rollovers that aggregation attributes to an iteration. -/
def Events.attributed (events : Events) (i : Iteration) : Int :=
  match Timeline.ofRollovers events.rollovers i.process with
  | .ok t => t.between i.start i.finish
  | .error _ => 0

/-- The iteration has a sample. -/
def Events.isSampled (events : Events) (i : Iteration) : Bool := i.takesTime && 0 < events.attributed i

/-- What a count is among those of its process: beside both smaller and larger counts than signed words can hold,
what is left of it on the way through a double, and the count itself otherwise. -/
def weighed (counts : List Int) (n : Int) : Int :=
  if counts.any fitsSigned && !counts.all fitsSigned then wordOfFloat (Float.ofInt n) % (2 * wordLimit : Int)
  else n

def Events.weight (events : Events) (r : Rollover) : Int :=
  weighed ((events.own r.process).map (·.count)) r.count

/-- An iteration of the same process ends at the moment of the rollover, and another one starts. -/
def Events.isShared (events : Events) (r : Rollover) : Bool :=
  events.iterations.any fun a => events.iterations.any fun b =>
    a.process = r.process && b.process = r.process && a.takesTime && b.takesTime &&
      a.finish == r.time && r.time == b.start

/-- One iteration is over when the other starts. -/
def Iteration.Precedes (a b : Iteration) : Prop := a.start ≤ b.start ∧ a.finish ≤ b.start

/-- The spans of each process, by their start, do not overlap. -/
def Events.Apart (events : Events) : Prop :=
  ∀ process, ∃ order : List Iteration, order.Perm (events.iterations.filter (·.process = process)) ∧
    order.IsChain Iteration.Precedes

section Words

theorem natAbs_toWord_le_natAbs (n : Int) : (toWord n).natAbs ≤ n.natAbs := by
  have hrange : ((2 * wordLimit : ℕ) : Int) = 18446744073709551616 := rfl
  rw [toWord, Int.bmod_def, hrange]
  split <;> omega

theorem toWord_sum_congr {words weights : List Int} (h : words.map toWord = weights.map toWord) :
    toWord words.sum = toWord weights.sum := by
  induction words generalizing weights with
  | nil => rw [List.map_eq_nil_iff.1 h.symm]
  | cons w words ih =>
    cases weights with
    | nil => cases h
    | cons v weights =>
      obtain ⟨hv, hweights⟩ := List.cons_eq_cons.1 h
      have hsum := ih hweights
      rw [toWord, toWord] at hv hsum ⊢
      rw [List.sum_cons, List.sum_cons, ← Int.bmod_add_bmod, hv, Int.bmod_add_bmod, ← Int.add_bmod_bmod, hsum,
        Int.add_bmod_bmod]

theorem weighed_nonneg {counts : List Int} {n : Int} (h : 0 ≤ n) : 0 ≤ weighed counts n := by
  rw [weighed]
  split
  · exact Int.emod_nonneg _ (by decide)
  · exact h

theorem weight_of_fits {events : Events} {r : Rollover}
    (h : ∀ r' ∈ events.rollovers, r'.process = r.process → fitsSigned r'.count = true) :
    events.weight r = r.count := by
  have hall : ((events.own r.process).map (·.count)).all fitsSigned = true := by
    refine List.all_eq_true.2 fun n hn => ?_
    obtain ⟨r', hr', rfl⟩ := List.mem_map.1 hn
    obtain ⟨hr', hown⟩ := mem_own.1 hr'
    exact h r' hr' hown
  rw [Events.weight, weighed, hall, Bool.not_true, Bool.and_false, if_neg Bool.false_ne_true]

/-- The words of some counts are what the counts weigh, up to the range of words. -/
theorem toWord_countWords {counts words : List Int} (h : countWords counts = .ok words) :
    words.map toWord = (counts.map (weighed counts)).map toWord := by
  have hlimit : (2 * wordLimit : Int) = (2 * wordLimit : ℕ) := by push_cast; rfl
  rw [countWords] at h
  rw [List.map_map]
  split at h
  · rename_i hall
    cases h
    refine List.map_congr_left fun n _ => ?_
    simp [weighed, hall]
  · rename_i hall
    split at h
    · cases h
    · split at h
      · rename_i hany
        cases h
        rw [List.map_map]
        refine List.map_congr_left fun n _ => ?_
        simp only [Function.comp_apply, weighed, hany, hall, Bool.not_false, Bool.and_self, if_true, toWord, hlimit,
          Int.emod_bmod]
      · rename_i hany
        cases h
        rw [List.map_map]
        refine List.map_congr_left fun n _ => ?_
        simp only [Function.comp_apply, weighed, hany, Bool.false_and, Bool.false_eq_true, if_false, toWord,
          Int.bmod_bmod]

end Words

section Places

theorem map_fst_filter_zipIdx {α : Type} (l : List α) (n k : ℕ) :
    ((l.zipIdx n).filter (·.2 < n + k)).map Prod.fst = l.take k := by
  induction l generalizing n k with
  | nil => simp
  | cons a l ih =>
    rw [List.zipIdx_cons]
    cases k with
    | zero =>
      have hih := ih (n + 1) 0
      have hnone : (l.zipIdx (n + 1)).filter (·.2 < n + 0) = [] := List.filter_eq_nil_iff.2 fun x hx => by
        have := List.le_snd_of_mem_zipIdx hx
        rw [decide_eq_true_iff]
        omega
      rw [List.filter_cons_of_neg (by simp), hnone]
      rfl
    | succ k =>
      have hih := ih (n + 1) k
      rw [show n + 1 + k = n + (k + 1) by omega] at hih
      rw [List.filter_cons_of_pos (by simp), List.map_cons, hih, List.take_succ_cons]

/-- What stands between two places. -/
theorem sum_take_sub_sum_take {α : Type} (f : α → Int) (l : List α) {a b : ℕ} (h : a ≤ b) :
    ((l.take b).map f).sum - ((l.take a).map f).sum =
      ((l.zipIdx.filter fun x => !decide (x.2 < a) && decide (x.2 < b)).map fun x => f x.1).sum := by
  have htake (k : ℕ) : ((l.take k).map f).sum = ((l.zipIdx.filter (·.2 < k)).map fun x => f x.1).sum := by
    have := map_fst_filter_zipIdx l 0 k
    rw [zero_add] at this
    rw [← this, List.map_map]
    rfl
  rw [htake, htake, sum_filter_of_imp (p := fun x => decide (x.2 < a)), add_sub_cancel_left]
  intro x _ hx
  rw [decide_eq_true_iff] at hx ⊢
  exact hx.trans_le h

/-- Each pair is counted at either of its two sides. -/
theorem sum_sum_filter {α β : Type} (c : β → α → Bool) (f : α → Int) (items : List α) (l : List β) :
    (l.map fun b => ((items.filter (c b)).map f).sum).sum =
      (items.map fun a => f a * (l.countP (c · a) : Int)).sum := by
  induction l with
  | nil => simp
  | cons b l ih =>
    rw [List.map_cons, List.sum_cons, ih]
    clear ih
    induction items with
    | nil => rfl
    | cons a items ih =>
      rw [List.map_cons, List.map_cons, List.sum_cons, List.sum_cons, ← ih, List.countP_cons]
      cases hc : c b a
      · rw [List.filter_cons_of_neg (by simp [hc])]
        simp only [Bool.false_eq_true, if_false, add_zero]
        ring
      · rw [List.filter_cons_of_pos hc, List.map_cons, List.sum_cons]
        simp only [if_true, Nat.cast_add, Nat.cast_one]
        ring

variable {events : Events} {i : Iteration} {t : Timeline}

/-- The place in the order of its process at which the iteration starts. -/
def Events.firstPlace (events : Events) (i : Iteration) : ℕ :=
  before ((events.own i.process).map (·.time)) i.start

/-- The place at which it has ended. -/
def Events.lastPlace (events : Events) (i : Iteration) : ℕ :=
  upTo ((events.own i.process).map (·.time)) i.finish

/-- The place is between these two, whichever comes first. -/
def Events.covers (events : Events) (i : Iteration) (place : ℕ) : Bool :=
  !decide (place < min (events.firstPlace i) (events.lastPlace i)) &&
    decide (place < max (events.firstPlace i) (events.lastPlace i))

/-- What is attributed to an iteration is the word of what the rollovers in front of both places weigh. -/
theorem attributed_eq (h : Timeline.ofRollovers events.rollovers i.process = .ok t) :
    events.attributed i = toWord ((((events.own i.process).take (events.lastPlace i)).map events.weight).sum -
      (((events.own i.process).take (events.firstPlace i)).map events.weight).sum) := by
  rw [Events.attributed, h]
  obtain ⟨words, hwords, ht⟩ := exists_of_bind_eq_ok h
  rw [← Events.own] at hwords ht
  cases ht
  have hweights : words.map toWord = ((events.own i.process).map events.weight).map toWord := by
    rw [toWord_countWords hwords, List.map_map, List.map_map, List.map_map]
    refine List.map_congr_left fun r hr => ?_
    simp only [Function.comp_apply, Events.weight, (mem_own.1 hr).2]
  have hlength := congrArg List.length hweights
  rw [List.length_map, List.length_map, List.length_map] at hlength
  have hsum (k : ℕ) : toWord (words.take k).sum =
      toWord (((events.own i.process).take k).map events.weight).sum := by
    refine toWord_sum_congr ?_
    rw [List.map_take, hweights, ← List.map_take, ← List.map_take]
  dsimp only
  rw [between_eq_sub (by rw [hlength, List.length_map])]
  exact toWord_sub_congr (hsum _) (hsum _)

/-- An iteration gets no more than what the rollovers at its places weigh. -/
theorem attributed_le (h : Timeline.ofRollovers events.rollovers i.process = .ok t)
    (hcounts : ∀ r ∈ events.rollovers, 0 ≤ r.count) (hpos : 0 < events.attributed i) :
    events.attributed i ≤ (((events.own i.process).zipIdx.filter fun x => events.covers i x.2).map
      fun x => events.weight x.1).sum := by
  have hnonneg (p : Rollover × ℕ → Bool) :
      0 ≤ (((events.own i.process).zipIdx.filter p).map fun x => events.weight x.1).sum := by
    refine List.sum_nonneg fun w hw => ?_
    obtain ⟨x, hx, rfl⟩ := List.mem_map.1 hw
    have hown := List.fst_mem_of_mem_zipIdx (List.mem_of_mem_filter hx)
    exact weighed_nonneg (hcounts _ (mem_own.1 hown).1)
  have hle := natAbs_toWord_le_natAbs ((((events.own i.process).take (events.lastPlace i)).map events.weight).sum -
    (((events.own i.process).take (events.firstPlace i)).map events.weight).sum)
  rw [← attributed_eq h] at hle
  unfold Events.covers
  rcases le_total (events.firstPlace i) (events.lastPlace i) with hplaces | hplaces
  · have hsub := sum_take_sub_sum_take events.weight (events.own i.process) hplaces
    have := hnonneg fun x => !decide (x.2 < events.firstPlace i) && decide (x.2 < events.lastPlace i)
    rw [min_eq_left hplaces, max_eq_right hplaces]
    omega
  · have hsub := sum_take_sub_sum_take events.weight (events.own i.process) hplaces
    have := hnonneg fun x => !decide (x.2 < events.lastPlace i) && decide (x.2 < events.firstPlace i)
    rw [min_eq_right hplaces, max_eq_left hplaces]
    omega

end Places

section Overlap

/-- A test that holds more often finds a later place, whatever the order of the times. -/
theorem bisect_mono {p q : Float → Bool} {times : Array Float} (h : ∀ x ∈ times, p x = true → q x = true)
    {low high : ℕ} (hlow : low ≤ high) (hhigh : high ≤ times.size) :
    bisect p times low high ≤ bisect q times low high := by
  induction low, high using bisect.induct p times with
  | case1 low high hlt middle hmiddle ih =>
    have hmem : times.getD middle 0.0 ∈ times := by
      rw [Array.getD_eq_getD_getElem?, Array.getElem?_eq_getElem (by omega), Option.getD_some]
      exact Array.getElem_mem _
    rw [bisect.eq_def p times low high, dif_pos hlt, if_pos hmiddle, bisect.eq_def q times low high, dif_pos hlt,
      if_pos (h _ hmem hmiddle)]
    exact ih (by omega) hhigh
  | case2 low high hlt middle hmiddle ih =>
    rw [bisect.eq_def p times low high, dif_pos hlt, if_neg hmiddle, bisect.eq_def q times low high, dif_pos hlt]
    dsimp only
    split
    · -- The two searches part here and stay on their sides of the middle.
      have hleft := (bisect_bounds p times (by omega : low ≤ middle)).2
      have hright := (bisect_bounds q times (by omega : middle + 1 ≤ high)).1
      exact hleft.trans ((Nat.le_succ middle).trans hright)
    · exact ih (by omega) (by omega)
  | case3 low high hlt =>
    rw [bisect, dif_neg hlt, bisect, dif_neg hlt]

section Moments

variable {times : List Float} {x y : Float}

theorem before_le_upTo (h : rank x ≤ rank y) : before times x ≤ upTo times y := by
  refine bisect_mono (fun z _ hz => ?_) (Nat.zero_le _) le_rfl
  rw [Bool.not_eq_true', Bool.eq_false_iff, ne_eq, earlier_iff_rank, not_lt]
  exact (earlier_iff_rank.1 hz).le.trans h

/-- What is up to one moment is before a later one, unless it is at both. -/
theorem upTo_le_before (h : rank x ≤ rank y) (hnone : ∀ z ∈ times, ¬(rank z = rank x ∧ rank z = rank y)) :
    upTo times x ≤ before times y := by
  refine bisect_mono (fun z hz hle => ?_) (Nat.zero_le _) le_rfl
  rw [Bool.not_eq_true', Bool.eq_false_iff, ne_eq, earlier_iff_rank, not_lt] at hle
  rw [earlier_iff_rank]
  refine lt_of_le_of_ne (hle.trans h) fun heq => hnone z (by simpa using hz) ⟨?_, heq⟩
  exact le_antisymm hle (heq ▸ h)

end Moments

section Order

theorem getElem_iff_lt_length_filter {α : Type} {p : α → Bool} {l : List α}
    (h : l.Pairwise fun a b => p b = true → p a = true) {k : ℕ} (hk : k < l.length) :
    p l[k] = true ↔ k < (l.filter p).length := by
  have hsplit : l[k]? = (l.filter p ++ l.filter (!p ·))[k]? := by rw [filter_append_filter h]
  rw [List.getElem?_eq_getElem hk] at hsplit
  constructor
  · intro hp
    by_contra hge
    rw [List.getElem?_append_right (not_lt.1 hge)] at hsplit
    have := List.mem_of_getElem? hsplit.symm
    rw [List.mem_filter, hp] at this
    exact absurd this.2 (by decide)
  · intro hlt
    rw [List.getElem?_append_left hlt] at hsplit
    exact (List.mem_filter.1 (List.mem_of_getElem? hsplit.symm)).2

variable {own : List Rollover} {place : ℕ} {x : Float}

theorem lt_upTo_iff (horder : own.Pairwise fun a b => rank a.time ≤ rank b.time) (hplace : place < own.length) :
    place < upTo (own.map (·.time)) x ↔ rank own[place].time ≤ rank x := by
  have hupto := pairwise_not_earlier horder x
  rw [upTo, bisect_map_time (p := fun y => !earlier x y) hupto, ← getElem_iff_lt_length_filter hupto hplace,
    Bool.not_eq_true', Bool.eq_false_iff, ne_eq, earlier_iff_rank, not_lt]

theorem before_le_iff (horder : own.Pairwise fun a b => rank a.time ≤ rank b.time) (hplace : place < own.length) :
    before (own.map (·.time)) x ≤ place ↔ rank x ≤ rank own[place].time := by
  have hbefore := pairwise_earlier horder x
  rw [before, bisect_map_time (p := (earlier · x)) hbefore, ← not_lt,
    ← getElem_iff_lt_length_filter hbefore hplace, earlier_iff_rank, not_lt]

end Order

end Overlap

section Spans

variable {events : Events} {a b d : Iteration} {process : Int}

theorem rank_lt_of_takesTime (h : a.takesTime = true) (hstart : a.start.isNaN = false) :
    rank a.start < rank a.finish := by
  cases hfinish : a.finish.isNaN with
  | true => exact rank_lt_of_isNaN hstart hfinish
  | false => rwa [Iteration.takesTime, Bool.not_eq_true', decide_eq_false_iff_not, le_iff_rank hfinish hstart,
      not_le] at h

/-- An iteration with a span that is over when another such iteration starts. -/
structure Parted (a b : Iteration) : Prop where
  first : rank a.start < rank a.finish
  apart : rank a.finish ≤ rank b.start
  second : rank b.start < rank b.finish
  finish_isNaN : a.finish.isNaN = false
  start_isNaN : b.start.isNaN = false

theorem Iteration.Precedes.parted (h : a.Precedes b) (ha : a.takesTime = true) (hb : b.takesTime = true) :
    Parted a b := by
  obtain ⟨hastart, hbstart⟩ := isNaN_of_le h.1
  obtain ⟨hafinish, -⟩ := isNaN_of_le h.2
  exact ⟨rank_lt_of_takesTime ha hastart, (le_iff_rank hafinish hbstart).1 h.2, rank_lt_of_takesTime hb hbstart,
    hafinish, hbstart⟩

instance : IsTrans Iteration Iteration.Precedes where
  trans a b d hab hbd := by
    obtain ⟨hastart, hbstart⟩ := isNaN_of_le hab.1
    obtain ⟨hafinish, -⟩ := isNaN_of_le hab.2
    obtain ⟨-, hdstart⟩ := isNaN_of_le hbd.1
    have hbd := (le_iff_rank hbstart hdstart).1 hbd.1
    exact ⟨(le_iff_rank hastart hdstart).2 (((le_iff_rank hastart hbstart).1 hab.1).trans hbd),
      (le_iff_rank hafinish hdstart).2 (((le_iff_rank hafinish hbstart).1 hab.2).trans hbd)⟩

/-- A rollover at the end of one span and the start of the next. -/
theorem isShared_of_ranks (h : Parted a b) (ha : a ∈ events.iterations) (hb : b ∈ events.iterations)
    (htime : a.takesTime = true) (htime' : b.takesTime = true) {r : Rollover} (hown : a.process = r.process)
    (hown' : b.process = r.process) (hlow : rank b.start ≤ rank r.time) (hhigh : rank r.time ≤ rank a.finish) :
    events.isShared r = true := by
  have hfinish : rank r.time = rank a.finish := le_antisymm hhigh (h.apart.trans hlow)
  have hstart : rank r.time = rank b.start := le_antisymm (hhigh.trans h.apart) hlow
  have hr : r.time.isNaN = false := Bool.eq_false_iff.2 fun hnan =>
    absurd hstart (rank_lt_of_isNaN h.start_isNaN hnan).ne'
  refine List.any_eq_true.2 ⟨a, ha, List.any_eq_true.2 ⟨b, hb, ?_⟩⟩
  simp only [Bool.and_eq_true, decide_eq_true_eq]
  exact ⟨⟨⟨⟨⟨hown, hown'⟩, htime⟩, htime'⟩, (beq_iff_rank h.finish_isNaN hr).2 hfinish.symm⟩,
    (beq_iff_rank hr h.start_isNaN).2 hstart⟩

theorem covers_iff (h : rank a.start ≤ rank a.finish) {place : ℕ} : events.covers a place = true ↔
    events.firstPlace a ≤ place ∧ place < events.lastPlace a := by
  have hle : events.firstPlace a ≤ events.lastPlace a := before_le_upTo h
  rw [Events.covers, min_eq_left hle, max_eq_right hle, Bool.and_eq_true, Bool.not_eq_true',
    decide_eq_false_iff_not, not_lt, decide_eq_true_iff]

/-- Two iterations have a place in common only if the rollover there is at the end of one and the start of the
other, provided that some order of time can be made if there is such a rollover at all. -/
theorem isShared_of_covers (h : Parted a b) (ha : a ∈ events.iterations) (hb : b ∈ events.iterations)
    (htime : a.takesTime = true) (htime' : b.takesTime = true) (hown : a.process = process)
    (hown' : b.process = process)
    (hshared : ∀ r ∈ events.own process, events.isShared r = true →
      (events.own process).Pairwise fun r r' => rank r.time ≤ rank r'.time)
    {place : ℕ} (hplace : place < (events.own process).length) (hcover : events.covers a place = true)
    (hcover' : events.covers b place = true) : events.isShared (events.own process)[place] = true := by
  obtain ⟨-, hlast⟩ := (covers_iff h.first.le).1 hcover
  obtain ⟨hfirst, -⟩ := (covers_iff h.second.le).1 hcover'
  rw [Events.lastPlace, hown] at hlast
  rw [Events.firstPlace, hown'] at hfirst
  have hof (r : Rollover) (hr : r ∈ events.own process) (hlow : rank b.start ≤ rank r.time)
      (hhigh : rank r.time ≤ rank a.finish) : events.isShared r = true :=
    isShared_of_ranks h ha hb htime htime' (hown.trans (mem_own.1 hr).2.symm)
      (hown'.trans (mem_own.1 hr).2.symm) hlow hhigh
  -- Were there no such rollover, the first window would end before the second one starts.
  obtain ⟨r, hr, hisShared⟩ : ∃ r ∈ events.own process, events.isShared r = true := by
    by_contra hnone
    push Not at hnone
    refine absurd (hlast.trans_le (upTo_le_before h.apart fun z hz hboth => ?_)) (not_lt.2 hfirst)
    obtain ⟨r, hr, rfl⟩ := List.mem_map.1 hz
    exact hnone r hr (hof r hr hboth.2.ge hboth.1.le)
  have horder := hshared r hr hisShared
  exact hof _ (List.getElem_mem hplace) ((before_le_iff horder hplace).1 hfirst)
    ((lt_upTo_iff horder hplace).1 hlast)

/-- No place is in the windows of three iterations. -/
theorem not_covers_of_between (hab : Parted a b) (hbd : Parted b d) (hown : a.process = process)
    (hown' : d.process = process) {place : ℕ} (hcover : events.covers a place = true) :
    events.covers d place = false := by
  have hlt : rank a.finish < rank d.start := (hab.apart.trans_lt hbd.first).trans_le hbd.apart
  obtain ⟨-, hlast⟩ := (covers_iff hab.first.le).1 hcover
  refine Bool.eq_false_iff.2 fun hcover' => ?_
  obtain ⟨hfirst, -⟩ := (covers_iff hbd.second.le).1 hcover'
  rw [Events.lastPlace, hown] at hlast
  rw [Events.firstPlace, hown'] at hfirst
  refine absurd (hlast.trans_le (upTo_le_before hlt.le fun z _ hboth => ?_)) (not_lt.2 hfirst)
  exact hlt.ne (hboth.1.symm.trans hboth.2)

end Spans

section Totals

variable {events : Events} {interval process : Int} {t : Timeline}

/-- Of iterations one after the other, no more than two have something in common, and not without reason. -/
theorem countP_le_of_pairwise {c : Iteration → Bool} {shared : Bool} {l : List Iteration}
    (hl : l.Pairwise Iteration.Precedes)
    (hpair : ∀ a ∈ l, ∀ b ∈ l, a.Precedes b → c a = true → c b = true → shared = true)
    (htriple : ∀ a ∈ l, ∀ b ∈ l, ∀ d ∈ l, a.Precedes b → b.Precedes d → c a = true → c d = false) :
    l.countP c ≤ if shared then 2 else 1 := by
  have hkept := hl.filter c
  have hmem : ∀ a ∈ l.filter c, a ∈ l ∧ c a = true := fun a ha => List.mem_filter.1 ha
  rw [List.countP_eq_length_filter]
  generalize l.filter c = kept at hkept hmem ⊢
  rcases kept with _ | ⟨a, _ | ⟨b, _ | ⟨d, rest⟩⟩⟩
  · exact Nat.zero_le _
  · split <;> simp
  · obtain ⟨ha, hca⟩ := hmem a (by simp)
    obtain ⟨hb, hcb⟩ := hmem b (by simp)
    rw [hpair a ha b hb (List.rel_of_pairwise_cons hkept (.head _)) hca hcb]
    exact le_rfl
  · obtain ⟨ha, hca⟩ := hmem a (by simp)
    obtain ⟨hb, -⟩ := hmem b (by simp)
    obtain ⟨hd, hcd⟩ := hmem d (by simp)
    have hbd := List.rel_of_pairwise_cons (List.pairwise_cons.1 hkept).2 (.head _)
    rw [htriple a ha b hb d hd (List.rel_of_pairwise_cons hkept (.head _)) hbd hca] at hcd
    cases hcd

/-- The iterations of a process with samples, one after the other. -/
theorem exists_sampled_order (happart : events.Apart) (process : Int) : ∃ order : List Iteration,
    order.Perm ((events.iterations.filter (·.process = process)).filter events.isSampled) ∧
      order.Pairwise Iteration.Precedes ∧ ∀ i ∈ order, i ∈ events.iterations ∧ i.process = process ∧
        i.takesTime = true ∧ 0 < events.attributed i := by
  obtain ⟨order, hperm, hchain⟩ := happart process
  refine ⟨order.filter events.isSampled, hperm.filter _, (List.isChain_iff_pairwise.1 hchain).filter _,
    fun i hi => ?_⟩
  obtain ⟨hi, hsampled⟩ := List.mem_filter.1 hi
  obtain ⟨hi, hown⟩ := List.mem_filter.1 (hperm.subset hi)
  rw [Events.isSampled, Bool.and_eq_true, decide_eq_true_iff] at hsampled
  exact ⟨hi, of_decide_eq_true hown, hsampled⟩

/-- Each rollover weighs in at most twice, or once, if no more iterations cover its place. -/
theorem sum_zipIdx_le {own : List Rollover} {weight : Rollover → Int} {shared : Rollover → Bool} {covered : ℕ → ℕ}
    (hweight : ∀ r ∈ own, 0 ≤ weight r)
    (h : ∀ (place : ℕ) (hplace : place < own.length), covered place ≤ if shared own[place] then 2 else 1) :
    (own.zipIdx.map fun x => weight x.1 * (covered x.2 : Int)).sum ≤
      (own.map fun r => weight r * if shared r then 2 else 1).sum := by
  have hfst : own.map (fun r => weight r * if shared r then 2 else 1) =
      own.zipIdx.map fun x => weight x.1 * if shared x.1 then 2 else 1 := by
    conv_lhs => rw [← List.zipIdx_map_fst 0 own, List.map_map]
    rfl
  rw [hfst]
  refine List.sum_le_sum fun x hx => ?_
  obtain ⟨hplace, hx⟩ := List.mem_zipIdx' hx
  have hle := h x.2 hplace
  have hmem : x.1 ∈ own := hx ▸ List.getElem_mem hplace
  rw [← hx] at hle
  refine Int.mul_le_mul_of_nonneg_left ?_ (hweight _ hmem)
  cases hs : shared x.1 <;> rw [hs] at hle <;> exact_mod_cast hle

/-- What the iterations of a process get is what its rollovers weigh, those at the end of one and the start of
another iteration twice. -/
theorem sum_attributed_le (happart : events.Apart) (hcounts : ∀ r ∈ events.rollovers, 0 ≤ r.count)
    (hshared : ∀ r ∈ events.rollovers, events.isShared r = true →
      ∀ r' ∈ events.rollovers, r'.process = r.process → r'.time.isNaN = false)
    (hline : Timeline.ofRollovers events.rollovers process = .ok t) :
    (((events.iterations.filter (·.process = process)).filter events.isSampled).map events.attributed).sum ≤
      ((events.own process).map fun r => events.weight r * if events.isShared r then 2 else 1).sum := by
  obtain ⟨order, hperm, hpairwise, hlive⟩ := exists_sampled_order happart process
  have horder (r : Rollover) (hr : r ∈ events.own process) (h : events.isShared r = true) :=
    own_ordered (hshared r (mem_own.1 hr).1 h)
  have hcover (place : ℕ) (hplace : place < (events.own process).length) :
      order.countP (events.covers · place) ≤ if events.isShared (events.own process)[place] then 2 else 1 := by
    refine countP_le_of_pairwise hpairwise (fun a ha b hb hab hca hcb => ?_)
      fun a ha b hb d hd hab hbd hca => ?_
    · obtain ⟨ha, hown, htime, -⟩ := hlive a ha
      obtain ⟨hb, hown', htime', -⟩ := hlive b hb
      refine isShared_of_covers (hab.parted htime htime') ha hb htime htime' hown hown' (fun r hr h => ?_) hplace
        hca hcb
      have := horder r hr h
      rwa [(mem_own.1 hr).2] at this
    · obtain ⟨-, hown, htime, -⟩ := hlive a ha
      obtain ⟨-, -, htime', -⟩ := hlive b hb
      obtain ⟨-, hown'', htime'', -⟩ := hlive d hd
      exact not_covers_of_between (hab.parted htime htime') (hbd.parted htime' htime'') hown hown'' hca
  rw [← (hperm.map _).sum_eq]
  have hattributed : ∀ i ∈ order, events.attributed i ≤
      (((events.own process).zipIdx.filter fun x => events.covers i x.2).map fun x => events.weight x.1).sum := by
    intro i hi
    obtain ⟨-, rfl, -, hpos⟩ := hlive i hi
    exact attributed_le hline hcounts hpos
  refine (List.sum_le_sum hattributed).trans ?_
  rw [sum_sum_filter (fun i (x : Rollover × ℕ) => events.covers i x.2) fun x => events.weight x.1]
  exact sum_zipIdx_le (fun r hr => weighed_nonneg (hcounts r (mem_own.1 hr).1)) hcover

/-- Sums by key are a sum over all that have one of the keys. -/
theorem sum_filter_mem {α : Type} (key : α → Int) (f : α → Int) (l : List α) {keys : List Int}
    (hkeys : keys.Nodup) : ((l.filter fun a => key a ∈ keys).map f).sum =
      (keys.map fun k => ((l.filter fun a => key a = k).map f).sum).sum := by
  rw [sum_sum_filter (fun k a => decide (key a = k)) f l keys]
  induction l with
  | nil => rfl
  | cons a l ih =>
    have hcount : keys.countP (fun k => decide (key a = k)) = if key a ∈ keys then 1 else 0 := by
      rw [← hkeys.count, List.count]
      exact List.countP_congr fun k _ => by rw [decide_eq_true_iff, beq_iff_eq, eq_comm]
    rw [List.map_cons, List.sum_cons, hcount, ← ih]
    by_cases hmem : key a ∈ keys
    · rw [List.filter_cons_of_pos (by simpa using hmem), if_pos hmem, List.map_cons, List.sum_cons, Nat.cast_one,
        mul_one]
    · rw [List.filter_cons_of_neg (by simpa using hmem), if_neg hmem, Nat.cast_zero, mul_zero, zero_add]

/-- What an iteration comes to. -/
theorem eq_of_sample? {i : Iteration} {x : Option Float}
    (hline : Timeline.ofRollovers events.rollovers i.process = .ok t) (h : sample? t interval i = .ok x) :
    x = if events.isSampled i then some (Float.ofInt (events.attributed i * interval)) else none := by
  have hattributed : events.attributed i = t.between i.start i.finish := by
    rw [Events.attributed, hline]
  rw [Events.isSampled, Iteration.takesTime, hattributed]
  rw [sample?] at h
  by_cases hle : i.finish ≤ i.start
  · rw [if_pos hle] at h
    simpa [hle] using (Except.ok.inj h).symm
  · rw [if_neg hle] at h
    dsimp only at h
    by_cases hpos : t.between i.start i.finish ≤ 0
    · rw [if_pos hpos] at h
      simpa [hle, not_lt.2 hpos] using (Except.ok.inj h).symm
    · rw [if_neg hpos] at h
      have hsampled : (!decide (i.finish ≤ i.start) && decide (0 < t.between i.start i.finish)) = true := by
        simp [hle, not_le.1 hpos]
      rw [hsampled, if_pos rfl]
      split at h
      · rename_i y hy
        rw [Decimal.floatOfInt?] at hy
        split at hy
        · rw [← Except.ok.inj h, hy]
        · cases hy
      · cases h

/-- The iterations that have samples, and their samples. -/
theorem samples_eq {m : Measurement} (h : aggregate events interval = .ok m) :
    (∀ i ∈ events.iterations, ∃ t, Timeline.ofRollovers events.rollovers i.process = .ok t) ∧
      m.samples = ((events.iterations.mergeSort Iteration.le).filter events.isSampled).map fun i =>
        Float.ofInt (events.attributed i * interval) := by
  obtain ⟨lines, hlines, h⟩ := exists_of_bind_eq_ok h
  obtain ⟨found, hfound, h⟩ := exists_of_bind_eq_ok h
  have hsample : ∀ i ∈ events.iterations.mergeSort Iteration.le,
      sample? ((lines.get? i.process).getD ⟨#[], #[]⟩) interval i = .ok
        (if events.isSampled i then some (Float.ofInt (events.attributed i * interval)) else none) := by
    intro i hi
    obtain ⟨t, ht, hget⟩ := exists_line hlines (List.mem_mergeSort.1 hi)
    obtain ⟨x, -, hx⟩ := exists_of_mapM_eq_ok hfound i hi
    rw [hget, Option.getD_some] at hx ⊢
    rw [hx, eq_of_sample? ht hx]
  rw [mapM_eq_ok hsample] at hfound
  cases hfound
  cases h
  exact ⟨fun i hi => (exists_line hlines hi).imp fun t ht => ht.1, filterMap_map_ite _ _ _⟩

/-- All samples together come from what the rollovers of processes with iterations weigh. -/
theorem sum_isSampled_le (happart : events.Apart) (hcounts : ∀ r ∈ events.rollovers, 0 ≤ r.count)
    (hshared : ∀ r ∈ events.rollovers, events.isShared r = true →
      ∀ r' ∈ events.rollovers, r'.process = r.process → r'.time.isNaN = false)
    (hlines : ∀ i ∈ events.iterations, ∃ t, Timeline.ofRollovers events.rollovers i.process = .ok t) :
    ((events.iterations.filter events.isSampled).map events.attributed).sum ≤
      ((events.rollovers.filter fun r => r.process ∈ events.iterations.map (·.process)).map fun r =>
        events.weight r * if events.isShared r then 2 else 1).sum := by
  have hnodup := List.nodup_dedup (events.iterations.map (·.process))
  have hiterations := sum_filter_mem (·.process) events.attributed (events.iterations.filter events.isSampled)
    hnodup
  have hall : (events.iterations.filter events.isSampled).filter
      (fun i => i.process ∈ (events.iterations.map (·.process)).dedup) = events.iterations.filter events.isSampled :=
    List.filter_eq_self.2 fun i hi =>
      decide_eq_true (List.mem_dedup.2 (List.mem_map_of_mem (List.mem_of_mem_filter hi)))
  have hrollovers := sum_filter_mem (·.process)
    (fun r => events.weight r * if events.isShared r then 2 else 1) events.rollovers hnodup
  simp only [List.mem_dedup] at hrollovers
  rw [hall] at hiterations
  rw [hiterations, hrollovers]
  refine List.sum_le_sum fun process hprocess => ?_
  obtain ⟨i, hi, rfl⟩ := List.mem_map.1 (List.mem_dedup.1 hprocess)
  obtain ⟨t, ht⟩ := hlines i hi
  have hperm := (List.mergeSort_perm (events.rollovers.filter (·.process = i.process)) Rollover.le).map
    fun r => events.weight r * if events.isShared r then 2 else 1
  rw [List.filter_comm, ← hperm.sum_eq]
  exact sum_attributed_le happart hcounts hshared ht

theorem ranks_of_isWithin {r : Rollover} {i : Iteration} (h : r.isWithin i = true) :
    r.process = i.process ∧ rank i.start ≤ rank r.time ∧ rank r.time ≤ rank i.finish := by
  rw [Rollover.isWithin, Bool.and_eq_true, Bool.and_eq_true, decide_eq_true_iff, decide_eq_true_iff,
    decide_eq_true_iff] at h
  obtain ⟨⟨hown, hstart⟩, hfinish⟩ := h
  obtain ⟨hstartNaN, htimeNaN⟩ := isNaN_of_le hstart
  exact ⟨hown, (le_iff_rank hstartNaN htimeNaN).1 hstart,
    (le_iff_rank htimeNaN (isNaN_of_le hfinish).2).1 hfinish⟩

/-- A rollover is within one iteration with a sample at most, or within two if one of them ends and the other
starts at that moment. -/
theorem countP_isWithin_le (happart : events.Apart) (r : Rollover) :
    (events.iterations.countP fun i => events.isSampled i && r.isWithin i) ≤
      if events.isShared r then 2 else 1 := by
  obtain ⟨order, hperm, hpairwise, hlive⟩ := exists_sampled_order happart r.process
  have hcount : (events.iterations.countP fun i => events.isSampled i && r.isWithin i) =
      order.countP r.isWithin := by
    rw [hperm.countP_eq, List.filter_filter, List.countP_filter]
    refine List.countP_congr fun i _ => ?_
    constructor
    · intro h
      rw [Bool.and_eq_true] at h
      simp [h.1, h.2, (ranks_of_isWithin h.2).1]
    · intro h
      simp only [Bool.and_eq_true] at h
      simp [h.1, h.2.1]
  rw [hcount]
  refine countP_le_of_pairwise hpairwise (fun a ha b hb hab hca hcb => ?_)
    fun a ha b hb d hd hab hbd hca => Bool.eq_false_iff.2 fun hcd => ?_
  · obtain ⟨ha, hown, htime, -⟩ := hlive a ha
    obtain ⟨hb, hown', htime', -⟩ := hlive b hb
    exact isShared_of_ranks (hab.parted htime htime') ha hb htime htime' hown hown' (ranks_of_isWithin hcb).2.1
      (ranks_of_isWithin hca).2.2
  · obtain ⟨-, -, htime, -⟩ := hlive a ha
    obtain ⟨-, -, htime', -⟩ := hlive b hb
    obtain ⟨-, -, htime'', -⟩ := hlive d hd
    have hab := hab.parted htime htime'
    have hbd := hbd.parted htime' htime''
    have hle := (ranks_of_isWithin hcd).2.1.trans (ranks_of_isWithin hca).2.2
    exact absurd hle (not_le.2 ((hab.apart.trans_lt hab.second).trans_le hbd.apart))

/-- Where times can be put in order, an iteration gets what the rollovers within it weigh, as a word. -/
theorem attributed_eq_toWord {i : Iteration} (hline : Timeline.ofRollovers events.rollovers i.process = .ok t)
    (hstart : i.start.isNaN = false) (hfinish : i.finish.isNaN = false) (htime : i.takesTime = true)
    (htimes : ∀ r ∈ events.rollovers, r.process = i.process → r.time.isNaN = false) :
    events.attributed i = toWord (((events.rollovers.filter (·.isWithin i)).map events.weight).sum) := by
  have hspan := rank_lt_of_takesTime htime hstart
  rw [attributed_eq hline, Events.lastPlace, Events.firstPlace,
    sum_take_sub_of_ordered _ (own_ordered htimes) hspan.le,
    ((filter_own_perm hstart hfinish htimes).map events.weight).sum_eq]

end Totals

/-- When the spans of each process do not overlap, the rollovers behind all samples are no more than there are in
the processes with iterations, where only those at the end of one span and the start of another count twice. No
other rollover is within two of the iterations with samples. -/
theorem samples_of_apart {events : Events} {interval : Int} {m : Measurement} (happart : events.Apart)
    (hcounts : ∀ r ∈ events.rollovers, 0 ≤ r.count)
    (hshared : ∀ r ∈ events.rollovers, events.isShared r = true →
      ∀ r' ∈ events.rollovers, r'.process = r.process → r'.time.isNaN = false)
    (h : aggregate events interval = .ok m) :
    ∃ order : List Iteration, order.Perm events.iterations ∧
      m.samples = ((order.filter events.isSampled).map fun i =>
        Float.ofInt (events.attributed i * interval)) ∧
      ((order.filter events.isSampled).map events.attributed).sum ≤
        ((events.rollovers.filter fun r => r.process ∈ events.iterations.map (·.process)).map fun r =>
          events.weight r * if events.isShared r then 2 else 1).sum ∧
      (∀ r ∈ events.rollovers, (order.countP fun i => events.isSampled i && r.isWithin i) ≤
        if events.isShared r then 2 else 1) ∧
      ∀ i ∈ order, i.start.isNaN = false → i.finish.isNaN = false → i.takesTime = true →
        (∀ r ∈ events.rollovers, r.process = i.process → r.time.isNaN = false) →
        events.attributed i = toWord (((events.rollovers.filter (·.isWithin i)).map events.weight).sum) := by
  obtain ⟨hlines, hsamples⟩ := samples_eq h
  have hperm := List.mergeSort_perm events.iterations Iteration.le
  refine ⟨_, hperm, hsamples, ?_, fun r _ => ?_, fun i hi hstart hfinish htime htimes => ?_⟩
  · rw [((hperm.filter _).map _).sum_eq]
    exact sum_isSampled_le happart hcounts hshared hlines
  · rw [hperm.countP_eq]
    exact countP_isWithin_le happart r
  · obtain ⟨t, ht⟩ := hlines i (hperm.subset hi)
    exact attributed_eq_toWord ht hstart hfinish htime htimes

/-- Two iterations back to back, with a rollover at the moment between them and another one in the first. -/
def adjoining : Events where
  rollovers := [⟨3.0, 7, 2⟩, ⟨5.0, 7, 1⟩, ⟨2.0, 8, 4⟩]
  iterations := [⟨0.0, 5.0, 7⟩, ⟨5.0, 10.0, 7⟩]

theorem apart_adjoining : adjoining.Apart := by
  intro process
  by_cases h : process = 7
  · subst h
    exact ⟨adjoining.iterations, .refl _, .cons_cons ⟨by decide +kernel, by decide +kernel⟩ (.singleton _)⟩
  · exact ⟨[], by simp [adjoining, Ne.symm h], .nil⟩

theorem samples_adjoining : ∃ m, aggregate adjoining 1 = .ok m ∧ ∃ order : List Iteration,
    order.Perm adjoining.iterations ∧
      m.samples = ((order.filter adjoining.isSampled).map fun i =>
        Float.ofInt (adjoining.attributed i * 1)) ∧
      ((order.filter adjoining.isSampled).map adjoining.attributed).sum ≤ 4 := by
  obtain ⟨m, hm⟩ : ∃ m, aggregate adjoining 1 = .ok m :=
    (exists_aggregate_iff (by decide +kernel)).2 (by decide +kernel)
  obtain ⟨order, hperm, hsamples, hsum, -⟩ :=
    samples_of_apart apart_adjoining (by decide +kernel) (by decide +kernel) hm
  refine ⟨m, hm, order, hperm, hsamples, hsum.trans ?_⟩
  have hfits : ∀ r ∈ adjoining.rollovers, fitsSigned r.count = true := by decide +kernel
  rw [List.map_congr_left fun r _ => by rw [weight_of_fits fun r' hr' _ => hfits r' hr']]
  decide +kernel

/-- The samples may be more than all rollovers together, since a span has both its ends. -/
theorem exists_attributed_twice : ¬∀ (events : Events) (interval : Int) (m : Measurement), events.Apart →
    (∀ r ∈ events.rollovers, 0 ≤ r.count) → aggregate events interval = .ok m →
      m.samples.foldl (· + ·) 0.0 ≤ Float.ofInt (interval *
        ((events.rollovers.filter fun r => r.process ∈ events.iterations.map (·.process)).map (·.count)).sum) := by
  intro hall
  have hcountable : adjoining.Countable := ⟨by decide +kernel, by decide +kernel, by decide +kernel⟩
  have hm : aggregate adjoining 1 = .ok (adjoining.summary 1 (adjoining.iterations.mergeSort Iteration.le)) :=
    (aggregate_eq hcountable).trans (if_pos (by decide +kernel))
  rw [List.mergeSort_of_pairwise (by decide +kernel)] at hm
  refine absurd (hall adjoining 1 _ apart_adjoining (by decide +kernel) hm) ?_
  decide +kernel

end InlineImpact.Capture
