import InlineImpact.Proofs.Replay
import Mathlib.Data.List.Basic

/-!
Numbers survive being written. The decimal form of an integer is read as that integer, as long as it has
no more digits than a reader accepts.
-/
namespace InlineImpact.Text

theorem toNat_lt_of_isDigit {c : Char} (h : c.isDigit = true) : 48 ≤ c.toNat ∧ c.toNat ≤ 57 := by
  simpa [Char.isDigit, UInt32.le_iff_toNat_le] using h

theorem digitIn?_of_isDigit {c : Char} (h : c.isDigit = true) : digitIn? 10 c = some (c.toNat - 48) := by
  have := toNat_lt_of_isDigit h
  rw [digitIn?, asciiDigit?, if_pos h, Option.filter_some, if_pos]
  exact decide_eq_true (by omega)

/-- Digits without underscores stand for their values. -/
theorem digits?_of_forall {base : Nat} {value : Char → Nat} {cs : List Char} (hne : cs ≠ [])
    (h : ∀ c ∈ cs, digitIn? base c = some (value c)) : digits? base cs = some (cs.map value) := by
  induction cs with
  | nil => exact (hne rfl).elim
  | cons c rest ih =>
    obtain ⟨hc, hrest⟩ := List.forall_mem_cons.1 h
    cases rest with
    | nil => rw [digits?, hc]; rfl
    | cons d more =>
      have hd : d ≠ '_' := by
        rintro rfl
        exact absurd (hrest _ (.head _)) (by simp [digitIn?, asciiDigit?])
      rw [digits?, hc, ih (List.cons_ne_nil _ _) hrest]
      · rfl
      · simp
      · rintro more' heq
        exact hd (List.cons_eq_cons.1 heq).1

theorem digits?_of_isDigit {cs : List Char} (hne : cs ≠ []) (h : ∀ c ∈ cs, c.isDigit = true) :
    digits? 10 cs = some (cs.map fun c => c.toNat - 48) :=
  digits?_of_forall hne fun c hc => digitIn?_of_isDigit (h c hc)

theorem ofDigits_toDigits (n : Nat) : ofDigits 10 ((Nat.toDigits 10 n).map fun c => c.toNat - 48) = n := by
  have h := Nat.ofDigitChars_ten_toDigits (n := n)
  rw [Nat.ofDigitChars_eq_foldl] at h
  rw [ofDigits, List.foldl_map]
  simpa [Nat.mul_comm] using h

theorem trimEnds_of_forall {α : Type} {p : α → Bool} {s : List α} (h : ∀ a ∈ s, p a = false) :
    trimEnds p s = s := by
  have hkeep (l : List α) (hl : ∀ a ∈ l, p a = false) : l.dropWhile p = l := by
    cases l with
    | nil => rfl
    | cons a l => rw [List.dropWhile_cons_of_neg (Bool.eq_false_iff.1 (hl a (.head _)))]
  rw [trimEnds, hkeep s h, hkeep s.reverse fun a ha => h a (List.mem_reverse.1 ha), List.reverse_reverse]

/-- The characters of a number are in basic Latin and beyond the blanks. -/
theorem toNat_of_mem_toString {n : Int} {c : Char} (h : c ∈ (toString n).toList) :
    45 ≤ c.toNat ∧ c.toNat ≤ 57 := by
  rcases isDigit_or_eq_minus h with hd | rfl
  · have := toNat_lt_of_isDigit hd
    omega
  · decide

theorem plainNumeral_eq_self {s : List Char}
    (h : ∀ c ∈ s, plainForm c = c ∧ isNumeralBlank c = false) : plainNumeral s = s := by
  have hplain : s.map plainForm = s :=
    (List.map_congr_left (g := id) fun c hc => (h c hc).1).trans (List.map_id _)
  rw [plainNumeral, hplain]
  exact trimEnds_of_forall fun c hc => (h c hc).2

theorem plainNumeral_toString (n : Int) : plainNumeral (toString n).toList = (toString n).toList := by
  refine plainNumeral_eq_self fun c hc => ?_
  have := toNat_of_mem_toString hc
  have hspace : c ≠ ' ' := by
    rintro rfl
    exact absurd this.1 (by decide)
  refine ⟨plainForm_of_lt c (by omega), ?_⟩
  simp [isNumeralBlank, hspace]
  omega

theorem trim_toString (n : Int) : trim (toString n).toList = (toString n).toList := by
  refine trimEnds_of_forall fun c hc => ?_
  have := toNat_of_mem_toString hc
  simp only [isBlank, Bool.or_eq_false_iff, Bool.and_eq_false_iff, decide_eq_false_iff_not, beq_eq_false_iff_ne]
  omega

/-- A number has as many digits as the power of ten that it stays below. -/
theorem readDigits {n k : Nat} (hk : 0 < k) (h : n < Nat.pow 10 k) :
    ∃ ds, digits? 10 (Nat.toDigits 10 n) = some ds ∧ ds.length ≤ k ∧ ofDigits 10 ds = n := by
  refine ⟨_, digits?_of_isDigit Nat.toDigits_ne_nil fun c hc =>
    Nat.isDigit_of_mem_toDigits (by decide) (by decide) hc, ?_, ofDigits_toDigits n⟩
  rw [List.length_map]
  exact (Nat.length_toDigits_le_iff (by decide) hk).2 h

theorem splitSign_toDigits (n : Nat) : splitSign (Nat.toDigits 10 n) = (false, Nat.toDigits 10 n) := by
  have hdigit : ∀ c ∈ Nat.toDigits 10 n, c.isDigit = true := fun c hc =>
    Nat.isDigit_of_mem_toDigits (by decide) (by decide) hc
  generalize Nat.toDigits 10 n = cs at hdigit
  rw [splitSign]
  · rintro rest rfl
    exact absurd (hdigit '-' (.head _)) (by decide)
  · rintro rest rfl
    exact absurd (hdigit '+' (.head _)) (by decide)

theorem readInt?_toString {n : Int} (h : n.natAbs < Nat.pow 10 maxDigits) :
    readInt? (toString n).toList = some n := by
  rw [readInt?, plainNumeral_toString]
  cases n with
  | ofNat m =>
    obtain ⟨ds, hds, hlength, rfl⟩ := readDigits (by decide) (show m < _ from h)
    have htext : (toString (Int.ofNat (ofDigits 10 ds))).toList = Nat.toDigits 10 (ofDigits 10 ds) :=
      Nat.toList_repr
    simp only [htext, splitSign_toDigits, hds, Option.bind_eq_bind, Option.bind_some, if_pos hlength]
    rfl
  | negSucc m =>
    obtain ⟨ds, hds, hlength, hvalue⟩ := readDigits (by decide) (show m + 1 < _ from h)
    have htext : (toString (Int.negSucc m)).toList = '-' :: Nat.toDigits 10 (m + 1) := by
      show ("-" ++ (m + 1).repr).toList = _
      rw [String.toList_append, Nat.toList_repr]
      rfl
    simp only [htext, splitSign, hds, Option.bind_eq_bind, Option.bind_some, if_pos hlength, hvalue]
    rfl

end InlineImpact.Text
