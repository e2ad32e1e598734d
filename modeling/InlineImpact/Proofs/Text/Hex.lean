import InlineImpact.Proofs.Text.Numeral

/-!
Numbers in base sixteen. The written form of an integer tells the integer, however wide it is filled
and whatever its sign.
-/
namespace InlineImpact.Text

theorem exists_digitChar_of_mem_toDigits {b n : Nat} {c : Char} (hb : 1 < b) (h : c ∈ Nat.toDigits b n) :
    ∃ d < b, c = d.digitChar := by
  induction n using Nat.strongRecOn with
  | ind n ih =>
    rw [Nat.toDigits_eq_if hb] at h
    split at h
    · rename_i hn
      exact ⟨n, hn, List.mem_singleton.1 h⟩
    · rename_i hn
      rcases List.mem_append.1 h with h | h
      · exact ih (n / b) (Nat.div_lt_self (by omega) hb) h
      · exact ⟨n % b, Nat.mod_lt n (by omega), List.mem_singleton.1 h⟩

/-- Digits, and zeros in front of them. -/
theorem exists_digitChar_of_mem_filled {k n : Nat} {c : Char}
    (h : c ∈ List.replicate k '0' ++ hexDigits n) : ∃ d < 16, c = d.digitChar := by
  rcases List.mem_append.1 h with h | h
  · exact ⟨0, by decide, (List.mem_replicate.1 h).2⟩
  · exact exists_digitChar_of_mem_toDigits (by decide) h

theorem mem_hexWide {width : Nat} {n : Int} {c : Char} (h : c ∈ hexWide width n) :
    c = '-' ∨ ∃ d < 16, c = d.digitChar := by
  rw [hexWide] at h
  split at h
  · exact (List.mem_cons.1 h).imp_right exists_digitChar_of_mem_filled
  · exact .inr (exists_digitChar_of_mem_filled h)

/-- A character that is no digit and no sign. -/
theorem not_mem_hexWide {width : Nat} {n : Int} {c : Char} (hsign : c ≠ '-')
    (h : ∀ d < 16, Nat.digitChar d ≠ c) : c ∉ hexWide width n := by
  intro hc
  rcases mem_hexWide hc with rfl | ⟨d, hd, rfl⟩
  · exact hsign rfl
  · exact h d hd rfl

/-- The number that digits in base sixteen stand for. -/
def hexValue (cs : List Char) : Nat := ofDigits 16 (cs.map fun c => (asciiDigit? c).getD 0)

theorem hexValue_concat (cs : List Char) {d : Nat} (h : d < 16) :
    hexValue (cs ++ [d.digitChar]) = hexValue cs * 16 + d := by
  have hall : ∀ d < 16, (asciiDigit? (Nat.digitChar d)).getD 0 = d := by decide
  simp [hexValue, ofDigits, hall d h]

theorem hexValue_hexDigits (n : Nat) : hexValue (hexDigits n) = n := by
  induction n using Nat.strongRecOn with
  | ind n ih =>
    rw [hexDigits, Nat.toDigits_eq_if (by decide)]
    split
    · rename_i hn
      simpa [hexValue, ofDigits] using hexValue_concat [] hn
    · rename_i hn
      have hhigh := ih (n / 16) (Nat.div_lt_self (by omega) (by decide))
      rw [hexDigits] at hhigh
      rw [hexValue_concat _ (Nat.mod_lt n (by decide)), hhigh]
      omega

/-- Zeros in front add nothing. -/
theorem hexValue_filled (k n : Nat) : hexValue (List.replicate k '0' ++ hexDigits n) = n := by
  have hzero (cs : List Char) : hexValue ('0' :: cs) = hexValue cs := by
    have hdigit : (asciiDigit? '0').getD 0 = 0 := by decide
    simp [hexValue, ofDigits, hdigit]
  induction k with
  | zero => exact hexValue_hexDigits n
  | succ k ih => rw [List.replicate_succ, List.cons_append, hzero, ih]

/-- No digit is a sign, so what is filled with zeros and what has a sign are told apart. -/
theorem sign_cons_ne_filled {k n : Nat} {cs : List Char} :
    '-' :: cs ≠ List.replicate k '0' ++ hexDigits n := by
  intro h
  obtain ⟨d, hd, heq⟩ := exists_digitChar_of_mem_filled (h ▸ List.mem_cons_self)
  have hall : ∀ d < 16, '-' ≠ Nat.digitChar d := by decide
  exact hall d hd heq

theorem hexWide_injective (width : Nat) : Function.Injective (hexWide width) := by
  intro m n h
  have hfilled {k l : Nat} (h : List.replicate k '0' ++ hexDigits m.natAbs =
      List.replicate l '0' ++ hexDigits n.natAbs) : m.natAbs = n.natAbs := by
    rw [← hexValue_filled k m.natAbs, h, hexValue_filled]
  rw [hexWide, hexWide] at h
  split at h <;> split at h
  · have := hfilled (List.cons_eq_cons.1 h).2
    omega
  · exact (sign_cons_ne_filled h).elim
  · exact (sign_cons_ne_filled h.symm).elim
  · have := hfilled h
    omega

theorem hex8_injective : Function.Injective hex8 := by
  intro m n h
  exact hexWide_injective 8 (String.ofList_injective h)

theorem not_mem_hex8 {n : Int} {c : Char} (hsign : c ≠ '-') (h : ∀ d < 16, Nat.digitChar d ≠ c) :
    c ∉ (hex8 n).toList := by
  rw [hex8, String.toList_ofList]
  exact not_mem_hexWide hsign h

/-- Digits are in basic Latin and no blanks. -/
theorem plain_digitChar {d : Nat} (h : d < 16) :
    (plainForm d.digitChar = d.digitChar ∧ isNumeralBlank d.digitChar = false) ∧ isBlank d.digitChar = false := by
  have hall : ∀ d < 16, (plainForm (Nat.digitChar d) = Nat.digitChar d ∧
    isNumeralBlank (Nat.digitChar d) = false) ∧ isBlank (Nat.digitChar d) = false := by decide
  exact hall d h

theorem isBlank_of_mem_hex8 {n : Int} {c : Char} (h : c ∈ (hex8 n).toList) : isBlank c = false := by
  rw [hex8, String.toList_ofList] at h
  rcases mem_hexWide h with rfl | ⟨d, hd, rfl⟩
  · decide
  · exact (plain_digitChar hd).2

section Marked

theorem digitIn?_digitChar {d : Nat} (h : d < 16) :
    digitIn? 16 d.digitChar = some ((asciiDigit? d.digitChar).getD 0) := by
  have hall : ∀ d < 16, digitIn? 16 (Nat.digitChar d) = some ((asciiDigit? (Nat.digitChar d)).getD 0) := by
    decide
  exact hall d h

theorem digits?_filled (k n : Nat) : digits? 16 (List.replicate k '0' ++ hexDigits n) =
    some ((List.replicate k '0' ++ hexDigits n).map fun c => (asciiDigit? c).getD 0) := by
  refine digits?_of_forall (List.append_ne_nil_of_right_ne_nil _ Nat.toDigits_ne_nil) fun c hc => ?_
  obtain ⟨d, hd, rfl⟩ := exists_digitChar_of_mem_filled hc
  exact digitIn?_digitChar hd

/-- The mark of the base and the digits after it are in basic Latin, and none of them is a blank. -/
theorem plain_of_mem_marked {k n : Nat} {c : Char}
    (h : c ∈ '0' :: 'x' :: (List.replicate k '0' ++ hexDigits n)) :
    (plainForm c = c ∧ isNumeralBlank c = false) ∧ isBlank c = false := by
  rcases List.mem_cons.1 h with rfl | h
  · decide
  · rcases List.mem_cons.1 h with rfl | h
    · decide
    · obtain ⟨d, hd, rfl⟩ := exists_digitChar_of_mem_filled h
      exact plain_digitChar hd

theorem trim_marked (k n : Nat) : trim ('0' :: 'x' :: (List.replicate k '0' ++ hexDigits n)) =
    '0' :: 'x' :: (List.replicate k '0' ++ hexDigits n) :=
  trimEnds_of_forall fun _ hc => (plain_of_mem_marked hc).2

theorem dropMark_marked (k n : Nat) : dropMark 'x' ('0' :: 'x' :: (List.replicate k '0' ++ hexDigits n)) =
    List.replicate k '0' ++ hexDigits n := by
  rw [dropMark, if_pos (by decide)]
  rintro ds heq
  obtain ⟨d, hd, hbar⟩ := exists_digitChar_of_mem_filled (heq ▸ List.mem_cons_self)
  have hall : ∀ d < 16, '_' ≠ Nat.digitChar d := by decide
  exact hall d hd hbar

/-- A number is read from the mark of base sixteen and its digits there, with zeros in front of them. -/
theorem readHex?_marked (k n : Nat) :
    readHex? ('0' :: 'x' :: (List.replicate k '0' ++ hexDigits n)) = some (n : Int) := by
  have hsign : splitSign ('0' :: 'x' :: (List.replicate k '0' ++ hexDigits n)) =
      (false, '0' :: 'x' :: (List.replicate k '0' ++ hexDigits n)) := rfl
  rw [readHex?, readBased?, plainNumeral_eq_self fun c hc => (plain_of_mem_marked hc).1, hsign]
  simp only [dropMark_marked, digits?_filled]
  exact congrArg (fun m : Nat => some (m : Int)) (hexValue_filled k n)

end Marked

end InlineImpact.Text
