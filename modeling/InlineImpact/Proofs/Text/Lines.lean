import InlineImpact.Text.Lines

/-!
Line ends made alike. Where no carriage return stands nothing changes, and what has no line end in it was
there before.
-/
namespace InlineImpact.Text

variable {p s t : List Char}

/-- A carriage return that ends a part is no line end together with what begins the next one. -/
theorem unifyLineEnds_append_cons {c : Char} (hc : c ≠ '\n') (s t : List Char) :
    unifyLineEnds (s ++ c :: t) = unifyLineEnds s ++ unifyLineEnds (c :: t) := by
  fun_induction unifyLineEnds s with
  | case1 => rfl
  | case2 rest ih => rw [List.cons_append, List.cons_append, unifyLineEnds, ih, List.cons_append]
  | case3 rest hnext ih =>
    rw [List.cons_append, unifyLineEnds, ih, List.cons_append]
    rintro more heq
    cases rest with
    | nil => exact hc (List.cons_eq_cons.1 heq).1
    | cons d rest => exact hnext rest (congrArg (· :: rest) (List.cons_eq_cons.1 heq).1)
  | case4 d rest hpair hsingle ih =>
    rw [List.cons_append, unifyLineEnds, ih, List.cons_append]
    · rintro more rfl heq
      exact hsingle rfl
    · exact hsingle

theorem unifyLineEnds_append (h : '\r' ∉ s) (t : List Char) : unifyLineEnds (s ++ t) = s ++ unifyLineEnds t := by
  induction s with
  | nil => rfl
  | cons c s ih =>
    obtain ⟨hc, hs⟩ := not_or.1 (mt List.mem_cons.2 h)
    rw [List.cons_append, unifyLineEnds, ih hs, List.cons_append]
    · exact fun _ heq => (hc heq.symm).elim
    · exact fun heq => (hc heq.symm).elim

theorem unifyLineEnds_of_not_mem (h : '\r' ∉ s) : unifyLineEnds s = s := by
  have hall := unifyLineEnds_append h []
  rwa [List.append_nil, unifyLineEnds, List.append_nil] at hall

theorem eq_nil_of_prefix_cons {a : Char} (ha : a ∉ p) (h : p <+: a :: s) : p = [] := by
  cases p with
  | nil => rfl
  | cons b p => exact absurd (List.mem_cons.2 (.inl (List.cons_prefix_cons.1 h).1.symm)) ha

theorem prefix_of_unifyLineEnds (hp : '\n' ∉ p) (h : p <+: unifyLineEnds s) : p <+: s := by
  fun_induction unifyLineEnds s generalizing p with
  | case1 => exact h
  | case2 rest ih =>
    rw [eq_nil_of_prefix_cons hp h]
    exact List.nil_prefix
  | case3 rest hnext ih =>
    rw [eq_nil_of_prefix_cons hp h]
    exact List.nil_prefix
  | case4 c rest hpair hsingle ih =>
    cases p with
    | nil => exact List.nil_prefix
    | cons d p =>
      obtain ⟨rfl, hrest⟩ := List.cons_prefix_cons.1 h
      exact List.cons_prefix_cons.2 ⟨rfl, ih (List.not_mem_of_not_mem_cons hp) hrest⟩

/-- What has no line end in it stood in the text before. -/
theorem infix_of_unifyLineEnds (hp : '\n' ∉ p) (h : p <:+: unifyLineEnds s) : p <:+: s := by
  fun_induction unifyLineEnds s with
  | case1 => exact h
  | case2 rest ih =>
    rcases List.infix_cons_iff.1 h with h | h
    · rw [eq_nil_of_prefix_cons hp h]
      exact List.nil_infix
    · exact (ih h).trans ((List.suffix_cons '\n' rest).trans (List.suffix_cons '\r' _)).isInfix
  | case3 rest hnext ih =>
    rcases List.infix_cons_iff.1 h with h | h
    · rw [eq_nil_of_prefix_cons hp h]
      exact List.nil_infix
    · exact (ih h).trans (List.suffix_cons '\r' rest).isInfix
  | case4 c rest hpair hsingle ih =>
    rcases List.infix_cons_iff.1 h with h | h
    · refine (prefix_of_unifyLineEnds hp ?_).isInfix
      rw [unifyLineEnds]
      · exact h
      · exact hpair
      · exact hsingle
    · exact (ih h).trans (List.suffix_cons c rest).isInfix

/-- Line feeds are the only line ends left. -/
theorem not_mem_unifyLineEnds (s : List Char) : '\r' ∉ unifyLineEnds s := by
  fun_induction unifyLineEnds s with
  | case1 => exact List.not_mem_nil
  | case2 rest ih => exact List.not_mem_cons_of_ne_of_not_mem (by decide) ih
  | case3 rest hnext ih => exact List.not_mem_cons_of_ne_of_not_mem (by decide) ih
  | case4 c rest hpair hsingle ih => exact List.not_mem_cons_of_ne_of_not_mem (fun h => hsingle h.symm) ih

section Pieces

variable {α : Type} [DecidableEq α] {mark : α}

theorem splitAtEach_cons_self (l : List α) : splitAtEach mark (mark :: l) = [] :: splitAtEach mark l := by
  rw [splitAtEach, if_pos (beq_self_eq_true mark)]

/-- No piece has a mark in it, nor anything that was not there before. -/
theorem mem_of_mem_splitAtEach {l piece : List α} (h : piece ∈ splitAtEach mark l) :
    ∀ a ∈ piece, a ∈ l ∧ a ≠ mark := by
  induction l generalizing piece with
  | nil =>
    obtain rfl := List.mem_singleton.1 h
    simp
  | cons c l ih =>
    have hrest (piece : List α) (hp : piece ∈ splitAtEach mark l) : ∀ a ∈ piece, a ∈ c :: l ∧ a ≠ mark :=
      fun a ha => ⟨.tail _ (ih hp a ha).1, (ih hp a ha).2⟩
    rw [splitAtEach] at h
    split at h
    · rcases List.mem_cons.1 h with rfl | h
      · simp
      · exact hrest piece h
    · rename_i hc
      have hc : c ≠ mark := fun heq => hc (beq_iff_eq.2 heq)
      cases hs : splitAtEach mark l with
      | nil =>
        rw [hs] at h
        obtain rfl := List.mem_singleton.1 h
        simp [hc]
      | cons first more =>
        rw [hs] at h hrest
        rcases List.mem_cons.1 h with rfl | h
        · exact List.forall_mem_cons.2 ⟨⟨.head _, hc⟩, hrest first (.head _)⟩
        · exact hrest piece (.tail _ h)

theorem splitAtEach_append_cons {s : List α} (h : mark ∉ s) (l : List α) :
    splitAtEach mark (s ++ mark :: l) = s :: splitAtEach mark l := by
  induction s with
  | nil => exact splitAtEach_cons_self l
  | cons c s ih =>
    obtain ⟨hc, hs⟩ := not_or.1 (mt List.mem_cons.2 h)
    rw [List.cons_append, splitAtEach, if_neg (by simpa using Ne.symm hc), ih hs]

/-- Pieces with a mark at the end of each come apart again. -/
theorem splitAtEach_flatMap {pieces : List (List α)} (h : ∀ piece ∈ pieces, mark ∉ piece) :
    splitAtEach mark (pieces.flatMap fun piece => piece ++ [mark]) = pieces ++ [[]] := by
  induction pieces with
  | nil => rfl
  | cons piece pieces ih =>
    obtain ⟨hpiece, hpieces⟩ := List.forall_mem_cons.1 h
    rw [List.flatMap_cons, List.append_assoc, List.singleton_append, splitAtEach_append_cons hpiece, ih hpieces]
    rfl

end Pieces

end InlineImpact.Text
