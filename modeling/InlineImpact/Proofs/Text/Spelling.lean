import InlineImpact.Proofs.Text.Hex
import Mathlib

/-!
The spellings of an integer in base sixteen: digits of either case and of any script, zeros in front of them, single
underscores between them, the mark of the base, a sign, and blanks on both sides. What is read is any of
these, and nothing else.
-/
namespace InlineImpact.Text

/-- Digits with single underscores between some of them, and the values of the digits. -/
inductive Digits (base : Nat) : List Char → List Nat → Prop
  | last {c : Char} {d : Nat} : digitIn? base c = some d → Digits base [c] [d]
  | cons {c : Char} {d : Nat} {cs : List Char} {ds : List Nat} :
    digitIn? base c = some d → Digits base cs ds → Digits base (c :: cs) (d :: ds)
  | underscored {c : Char} {d : Nat} {cs : List Char} {ds : List Nat} :
    digitIn? base c = some d → Digits base cs ds → Digits base (c :: '_' :: cs) (d :: ds)

/-- The signs, and whether they are a minus. -/
def signs : List (List Char × Bool) := [([], false), (['+'], false), (['-'], true)]

/-- What may stand in front of the digits to mark the base. -/
def hexMarks : List (List Char) := [[], ['0', 'x'], ['0', 'X'], ['0', 'x', '_'], ['0', 'X', '_']]

/-- The text, with digits and blanks of any script in their plain form, spells the number. -/
def SpellsHex (s : List Char) (n : Int) : Prop :=
  ∃ left sign mark digits right negative ds,
    s.map plainForm = left ++ (sign ++ (mark ++ digits)) ++ right ∧
      (∀ c ∈ left ++ right, isNumeralBlank c = true) ∧ (sign, negative) ∈ signs ∧ mark ∈ hexMarks ∧
      Digits 16 digits ds ∧ n = withSign negative (ofDigits 16 ds)

section Digits

variable {base : Nat} {c : Char} {d : Nat} {cs : List Char} {ds : List Nat}

theorem toNat_of_digitIn? (h : digitIn? base c = some d) : 48 ≤ c.toNat := by
  have hdigit := (Option.filter_eq_some_iff.1 h).1
  rw [asciiDigit?] at hdigit
  split at hdigit
  · exact (toNat_lt_of_isDigit ‹_›).1
  · split at hdigit
    · rename_i hlower
      have := UInt32.le_iff_toNat_le.1 hlower.1
      exact le_trans (by decide) this
    · split at hdigit
      · rename_i hupper
        have := UInt32.le_iff_toNat_le.1 hupper.1
        exact le_trans (by decide) this
      · cases hdigit

theorem ne_underscore_of_digitIn? (h : digitIn? base c = some d) : c ≠ '_' := by
  rintro rfl
  have hnone : asciiDigit? '_' = none := by decide
  rw [digitIn?, hnone] at h
  cases h

/-- Digits begin with one of them. -/
theorem Digits.exists_cons (h : Digits base cs ds) :
    ∃ c d rest, cs = c :: rest ∧ digitIn? base c = some d ∧
      ∀ e more, rest = e :: more → e = '_' ∨ ∃ d', digitIn? base e = some d' := by
  cases h with
  | @last c d hd => exact ⟨c, d, [], rfl, hd, nofun⟩
  | @cons c d cs ds hd hcs =>
    refine ⟨c, d, cs, rfl, hd, fun e more heq => .inr ?_⟩
    subst heq
    cases hcs <;> exact ⟨_, ‹_›⟩
  | @underscored c d cs ds hd hcs =>
    exact ⟨c, d, _, rfl, hd, fun e more heq => .inl (List.cons_eq_cons.1 heq).1.symm⟩

theorem Digits.mem (h : Digits base cs ds) (hc : c ∈ cs) : c = '_' ∨ ∃ d, digitIn? base c = some d := by
  induction h with
  | last hd => exact .inr ⟨_, List.mem_singleton.1 hc ▸ hd⟩
  | cons hd _ ih =>
    rcases List.mem_cons.1 hc with rfl | hc
    · exact .inr ⟨_, hd⟩
    · exact ih hc
  | underscored hd _ ih =>
    rcases List.mem_cons.1 hc with rfl | hc
    · exact .inr ⟨_, hd⟩
    · rcases List.mem_cons.1 hc with rfl | hc
      · exact .inl rfl
      · exact ih hc

theorem digits?_eq_some_iff : digits? base cs = some ds ↔ Digits base cs ds := by
  constructor
  · intro h
    fun_induction digits? base cs generalizing ds with
    | case1 => cases h
    | case2 c =>
      obtain ⟨d, hd, rfl⟩ := Option.map_eq_some_iff.1 h
      exact .last hd
    | case3 c rest ih =>
      obtain ⟨d, hd, h⟩ := Option.bind_eq_some_iff.1 h
      obtain ⟨ds', hds, h⟩ := Option.bind_eq_some_iff.1 h
      cases h
      exact .underscored hd (ih hds)
    | case4 c rest _ _ ih =>
      obtain ⟨d, hd, h⟩ := Option.bind_eq_some_iff.1 h
      obtain ⟨ds', hds, h⟩ := Option.bind_eq_some_iff.1 h
      cases h
      exact .cons hd (ih hds)
  · intro h
    induction h with
    | last hd => rw [digits?, hd]; rfl
    | underscored hd _ ih => rw [digits?, hd, ih]; rfl
    | @cons c d cs ds hd hcs ih =>
      have hne : cs ≠ [] := by rintro rfl; cases hcs
      have hbar : ∀ rest, cs ≠ '_' :: rest := by
        rintro rest rfl
        obtain ⟨c', d', rest', heq, hd', -⟩ := hcs.exists_cons
        exact ne_underscore_of_digitIn? hd' (List.cons_eq_cons.1 heq).1.symm
      rw [digits?, hd, ih]
      · rfl
      · exact hne
      · exact hbar

end Digits

section Parts

variable {s left body right : List Char} {c : Char}

theorem dropWhile_of_head {α : Type} {p : α → Bool} {l : List α} (h : ∀ a rest, l = a :: rest → p a = false) :
    l.dropWhile p = l := by
  cases l with
  | nil => rfl
  | cons a rest => exact List.dropWhile_cons_of_neg (Bool.eq_false_iff.1 (h a rest rfl))

/-- Trimming takes off what is on both sides of a part that has none of it. -/
theorem trimEnds_append {α : Type} {p : α → Bool} {left body right : List α} (hleft : ∀ a ∈ left, p a = true)
    (hbody : ∀ a ∈ body, p a = false) (hright : ∀ a ∈ right, p a = true) :
    trimEnds p (left ++ body ++ right) = body := by
  rw [trimEnds, List.append_assoc, List.dropWhile_append_of_pos hleft]
  cases body with
  | nil => simp [List.dropWhile_eq_nil_iff.2 hright]
  | cons a rest =>
    rw [List.cons_append, List.dropWhile_cons_of_neg (Bool.eq_false_iff.1 (hbody a (.head _))), ← List.cons_append,
      List.reverse_append, List.dropWhile_append_of_pos fun b hb => hright b (List.mem_reverse.1 hb),
      dropWhile_of_head, List.reverse_reverse]
    intro b more heq
    have hmem : b ∈ (a :: rest).reverse := heq ▸ List.mem_cons_self
    exact hbody b (List.mem_reverse.1 hmem)

theorem exists_trimEnds {α : Type} (p : α → Bool) (s : List α) :
    ∃ left right, s = left ++ trimEnds p s ++ right ∧ ∀ a ∈ left ++ right, p a = true := by
  refine ⟨s.takeWhile p, ((s.dropWhile p).reverse.takeWhile p).reverse, ?_, fun a ha => ?_⟩
  · rw [trimEnds, List.append_assoc, ← List.reverse_append, List.takeWhile_append_dropWhile, List.reverse_reverse,
      List.takeWhile_append_dropWhile]
  · rcases List.mem_append.1 ha with ha | ha
    · exact List.mem_takeWhile_imp ha
    · exact List.mem_takeWhile_imp (List.mem_reverse.1 ha)

theorem exists_splitSign (s : List Char) :
    ∃ sign, (sign, (splitSign s).1) ∈ signs ∧ s = sign ++ (splitSign s).2 := by
  unfold splitSign
  split
  · exact ⟨['-'], by simp [signs], rfl⟩
  · exact ⟨['+'], by simp [signs], rfl⟩
  · exact ⟨[], by simp [signs], rfl⟩

theorem toLower_eq_x_iff : (c.toLower == 'x') = true ↔ c = 'x' ∨ c = 'X' := by
  constructor
  · intro h
    have h := beq_iff_eq.1 h
    rw [Char.toLower] at h
    split at h
    · right
      have hval : c.val + ('a'.val - 'A'.val) = 'x'.val := congrArg Char.val h
      have hback := congrArg (· - ('a'.val - 'A'.val)) hval
      rw [UInt32.add_sub_cancel] at hback
      exact Char.ext hback
    · exact .inl h
  · rintro (rfl | rfl) <;> decide

theorem exists_dropMark (s : List Char) : ∃ mark ∈ hexMarks, s = mark ++ dropMark 'x' s := by
  unfold dropMark
  split
  · rename_i c rest
    split
    · rename_i hc
      rcases toLower_eq_x_iff.1 hc with rfl | rfl
      · split
        · exact ⟨['0', 'x', '_'], by decide, rfl⟩
        · exact ⟨['0', 'x'], by decide, rfl⟩
      · split
        · exact ⟨['0', 'X', '_'], by decide, rfl⟩
        · exact ⟨['0', 'X'], by decide, rfl⟩
    · exact ⟨[], by decide, rfl⟩
  · exact ⟨[], by decide, rfl⟩

end Parts

section Reading

variable {s sign mark digits : List Char} {c : Char} {negative : Bool} {d : ℕ} {ds : List ℕ} {n : ℤ}

theorem isNumeralBlank_of_digitIn? {base : ℕ} (h : digitIn? base c = some d) : isNumeralBlank c = false := by
  have hc := toNat_of_digitIn? h
  have hspace : c ≠ ' ' := by
    rintro rfl
    exact absurd hc (by decide)
  rw [isNumeralBlank, Bool.or_eq_false_iff, beq_eq_false_iff_ne]
  exact ⟨by simp; omega, hspace⟩

/-- The characters of a numeral without the blanks around it. -/
theorem mem_numeral (hsign : (sign, negative) ∈ signs) (hmark : mark ∈ hexMarks) (hdigits : Digits 16 digits ds)
    (hc : c ∈ sign ++ (mark ++ digits)) : c ∈ ['+', '-', 'x', 'X', '_'] ∨ ∃ d, digitIn? 16 c = some d := by
  have hsigns : ∀ sign ∈ signs, ∀ c ∈ sign.1, c ∈ ['+', '-', 'x', 'X', '_'] := by simp [signs]
  have hmarks : ∀ mark ∈ hexMarks, ∀ c ∈ mark, c = '0' ∨ c ∈ ['+', '-', 'x', 'X', '_'] := by
    simp [hexMarks]
  rcases List.mem_append.1 hc with hc | hc
  · exact .inl (hsigns _ hsign c hc)
  · rcases List.mem_append.1 hc with hc | hc
    · rcases hmarks _ hmark c hc with rfl | hc
      · exact .inr ⟨0, by decide⟩
      · exact .inl hc
    · rcases hdigits.mem hc with rfl | hd
      · exact .inl (by decide)
      · exact .inr hd

theorem isNumeralBlank_of_mem (hsign : (sign, negative) ∈ signs) (hmark : mark ∈ hexMarks)
    (hdigits : Digits 16 digits ds) (hc : c ∈ sign ++ (mark ++ digits)) : isNumeralBlank c = false := by
  have hother : ∀ c ∈ ['+', '-', 'x', 'X', '_'], isNumeralBlank c = false := by simp [isNumeralBlank]
  rcases mem_numeral hsign hmark hdigits hc with hc | ⟨d, hd⟩
  · exact hother c hc
  · exact isNumeralBlank_of_digitIn? hd

/-- What begins with a mark or a digit begins with no sign. -/
theorem head_ne_sign (hmark : mark ∈ hexMarks) (hdigits : Digits 16 digits ds) {rest : List Char}
    (h : mark ++ digits = c :: rest) : c ≠ '-' ∧ c ≠ '+' := by
  have hmarks : ∀ mark ∈ hexMarks, mark = [] ∨ mark.head? = some '0' := by decide
  rcases hmarks mark hmark with rfl | hzero
  · obtain ⟨c', d, rest', rfl, hd, -⟩ := hdigits.exists_cons
    obtain ⟨rfl, -⟩ := List.cons_eq_cons.1 h
    have hc := toNat_of_digitIn? hd
    constructor <;>
    · rintro rfl
      exact absurd hc (by decide)
  · have hhead := congrArg List.head? h
    rw [List.head?_append, hzero, Option.some_or, List.head?_cons] at hhead
    cases hhead
    decide

theorem splitSign_append (hsign : (sign, negative) ∈ signs) (hmark : mark ∈ hexMarks)
    (hdigits : Digits 16 digits ds) : splitSign (sign ++ (mark ++ digits)) = (negative, mark ++ digits) := by
  simp only [signs, List.mem_cons, List.not_mem_nil, or_false, Prod.mk.injEq] at hsign
  rcases hsign with ⟨rfl, rfl⟩ | ⟨rfl, rfl⟩ | ⟨rfl, rfl⟩
  · rw [List.nil_append]
    unfold splitSign
    split
    · rename_i rest heq
      exact absurd rfl (head_ne_sign hmark hdigits heq).1
    · rename_i rest heq
      exact absurd rfl (head_ne_sign hmark hdigits heq).2
    · rfl
  · rfl
  · rfl

theorem dropMark_append (hmark : mark ∈ hexMarks) (hdigits : Digits 16 digits ds) :
    dropMark 'x' (mark ++ digits) = digits := by
  obtain ⟨c, d, rest, rfl, hd, hrest⟩ := hdigits.exists_cons
  have hc := ne_underscore_of_digitIn? hd
  have hmarked (mark : Char) (h : mark.toLower == 'x') : dropMark 'x' ('0' :: mark :: c :: rest) = c :: rest := by
    rw [dropMark, if_pos h]
    rintro ds heq
    exact hc (List.cons_eq_cons.1 heq).1
  simp only [hexMarks, List.mem_cons, List.not_mem_nil, or_false] at hmark
  rcases hmark with rfl | rfl | rfl | rfl | rfl
  · -- A zero without a mark is a digit, and what follows it is a digit or an underscore.
    rw [List.nil_append]
    unfold dropMark
    split
    · rename_i e more heq
      obtain ⟨-, rfl⟩ := List.cons_eq_cons.1 heq
      refine if_neg fun hx => ?_
      rcases hrest e more rfl with rfl | ⟨d', hd'⟩
      · exact absurd hx (by decide)
      · have hnone : digitIn? 16 'x' = none ∧ digitIn? 16 'X' = none := by decide
        rcases toLower_eq_x_iff.1 hx with rfl | rfl
        · rw [hnone.1] at hd'
          cases hd'
        · rw [hnone.2] at hd'
          cases hd'
    · rfl
  · exact hmarked 'x' (by decide)
  · exact hmarked 'X' (by decide)
  · rfl
  · rfl

theorem readHex?_eq (s : List Char) : readHex? s =
    (digits? 16 (dropMark 'x' (splitSign (plainNumeral s)).2)).map fun ds =>
      withSign (splitSign (plainNumeral s)).1 (ofDigits 16 ds) := by
  rw [readHex?, readBased?]
  generalize splitSign (plainNumeral s) = parts
  obtain ⟨negative, body⟩ := parts
  dsimp only
  cases digits? 16 (dropMark 'x' body) <;> rfl

/-- A number is read from its spellings, and from no other text. -/
theorem readHex?_eq_some_iff : readHex? s = some n ↔ SpellsHex s n := by
  rw [readHex?_eq, Option.map_eq_some_iff]
  constructor
  · rintro ⟨ds, hds, rfl⟩
    obtain ⟨left, right, hs, hblank⟩ := exists_trimEnds isNumeralBlank (s.map plainForm)
    obtain ⟨sign, hsign, hbody⟩ := exists_splitSign (plainNumeral s)
    obtain ⟨mark, hmark, hmarked⟩ := exists_dropMark (splitSign (plainNumeral s)).2
    refine ⟨left, sign, mark, _, right, _, ds, ?_, hblank, hsign, hmark, digits?_eq_some_iff.1 hds, rfl⟩
    rw [← hmarked, ← hbody]
    exact hs
  · rintro ⟨left, sign, mark, digits, right, negative, ds, hs, hblank, hsign, hmark, hdigits, rfl⟩
    have hplain : plainNumeral s = sign ++ (mark ++ digits) := by
      rw [plainNumeral, hs]
      exact trimEnds_append (fun c hc => hblank c (List.mem_append_left _ hc))
        (fun c hc => isNumeralBlank_of_mem hsign hmark hdigits hc) fun c hc => hblank c (List.mem_append_right _ hc)
    rw [hplain, splitSign_append hsign hmark hdigits, dropMark_append hmark hdigits]
    exact ⟨ds, digits?_eq_some_iff.2 hdigits, rfl⟩

/-- A spelling has blanks, signs, marks, digits and underscores in it, and no other character. -/
theorem not_mem_of_spellsHex (h : SpellsHex s n) (hc : plainForm c = c) (hblank : isNumeralBlank c = false)
    (hother : c ∉ ['+', '-', 'x', 'X', '_']) (hdigit : digitIn? 16 c = none) : c ∉ s := by
  obtain ⟨left, sign, mark, digits, right, negative, ds, hs, hblanks, hsign, hmark, hdigits, -⟩ := h
  intro hmem
  have hplain : c ∈ s.map plainForm := List.mem_map.2 ⟨c, hmem, hc⟩
  have hside : c ∉ left ++ right := fun h => by
    rw [hblanks c h] at hblank
    cases hblank
  rw [hs] at hplain
  rcases List.mem_append.1 hplain with h | h
  · rcases List.mem_append.1 h with h | h
    · exact hside (List.mem_append_left _ h)
    · rcases mem_numeral hsign hmark hdigits h with h | ⟨d, hd⟩
      · exact hother h
      · rw [hdigit] at hd
        cases hd
  · exact hside (List.mem_append_right _ h)

theorem ne_nil_of_spellsHex (h : SpellsHex s n) : s ≠ [] := by
  obtain ⟨left, sign, mark, digits, right, negative, ds, hs, -, -, -, hdigits, -⟩ := h
  obtain ⟨c, d, rest, rfl, -⟩ := hdigits.exists_cons
  rintro rfl
  simp at hs

end Reading

section Written

/-- A sign and digits, with zeros in front of them, spell a number. -/
theorem spellsHex_filled {sign : List Char} {negative : Bool} (hsign : (sign, negative) ∈ signs) (k n : Nat) :
    SpellsHex (sign ++ (List.replicate k '0' ++ hexDigits n)) (withSign negative n) := by
  have hsigns : ∀ sign ∈ signs, sign.1.map plainForm = sign.1 := by decide
  have hdigits : (List.replicate k '0' ++ hexDigits n).map plainForm = List.replicate k '0' ++ hexDigits n := by
    refine (List.map_congr_left (g := id) fun c hc => ?_).trans (List.map_id _)
    obtain ⟨d, hd, rfl⟩ := exists_digitChar_of_mem_filled hc
    exact (plain_digitChar hd).1.1
  refine ⟨[], sign, [], _, [], negative, _, ?_, nofun, hsign, by decide,
    digits?_eq_some_iff.1 (digits?_filled k n), ?_⟩
  · rw [List.map_append, hsigns _ hsign, hdigits, List.append_nil]
    rfl
  · exact congrArg (fun m : Nat => withSign negative m) (hexValue_filled k n).symm

/-- The written form of a number spells it, filled to whatever width. -/
theorem spellsHex_hexWide (width : Nat) (n : Int) : SpellsHex (hexWide width n) n := by
  rw [hexWide]
  split
  · have hminus : (['-'], true) ∈ signs := by decide
    have hvalue : withSign true n.natAbs = n := by
      rw [withSign, if_pos rfl]
      omega
    have hspells := spellsHex_filled hminus (width - 1 - (hexDigits n.natAbs).length) n.natAbs
    rw [hvalue] at hspells
    exact hspells
  · have hnone : ([], false) ∈ signs := by decide
    have hvalue : withSign false n.natAbs = n := by
      rw [withSign, if_neg Bool.false_ne_true]
      omega
    have hspells := spellsHex_filled hnone (width - (hexDigits n.natAbs).length) n.natAbs
    rw [hvalue] at hspells
    exact hspells

theorem spellsHex_hex8 (n : Int) : SpellsHex (hex8 n).toList n := by
  rw [hex8, String.toList_ofList]
  exact spellsHex_hexWide 8 n

end Written

end InlineImpact.Text
