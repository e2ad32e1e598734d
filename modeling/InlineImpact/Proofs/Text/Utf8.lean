import InlineImpact.Text.Utf8
import Mathlib.Data.String.Basic

/-!
Reading text back from its bytes. A character that was encoded is completed by exactly its own bytes, so
nothing of a well-formed text is replaced.
-/
namespace InlineImpact.Text

open String (utf8EncodeChar)

section Bytes

/-- Collecting the bytes goes on after those of `l`. -/
theorem toList_loop (l r acc : List UInt8) :
    ByteArray.toList.loop ⟨(l ++ r).toArray⟩ l.length acc = acc.reverse ++ r := by
  induction r generalizing l acc with
  | nil =>
    rw [ByteArray.toList.loop, if_neg (by simp [ByteArray.size]), List.append_nil]
  | cons b r ih =>
    have hbyte : (ByteArray.mk (l ++ b :: r).toArray).get! l.length = b := by
      simp [ByteArray.get!]
    have hrest := ih (l ++ [b]) (b :: acc)
    rw [ByteArray.toList.loop, if_pos (by simp [ByteArray.size]), hbyte]
    simpa using hrest

theorem toList_toByteArray (l : List UInt8) : l.toByteArray.toList = l := by
  have hbytes : l.toByteArray = ⟨([] ++ l).toArray⟩ := ByteArray.ext List.data_toByteArray
  rw [hbytes, ByteArray.toList]
  exact toList_loop [] l []

theorem toList_toUTF8 (s : String) : s.toUTF8.toList = s.toList.flatMap utf8EncodeChar := by
  have hbytes : s.toUTF8 = (s.toList.flatMap utf8EncodeChar).toByteArray := by
    conv_lhs => rw [← String.ofList_toList (s := s)]
    exact String.toByteArray_ofList
  rw [hbytes, toList_toByteArray]

end Bytes

section Characters

theorem toNat_ofNat {n : Nat} (h : n < 256) : (UInt8.ofNat n).toNat = n := UInt8.toNat_ofNat_of_lt' h

theorem continuation_ofNat {low high m : Nat} (hlow : low ≤ m) (hhigh : m ≤ high) (hm : m < 256)
    (value n : Nat) (rest : List UInt8) : continuation low high value (n + 1) (UInt8.ofNat m :: rest) =
      continuation 0x80 0xBF (value * 64 + (m - 0x80)) n rest := by
  rw [continuation, toNat_ofNat hm, if_pos ⟨hlow, hhigh⟩]

/-- The bytes of a character are read as this character. -/
theorem exists_completeChar (c : Char) (rest : List UInt8) : ∃ lead more,
    utf8EncodeChar c = lead :: more ∧ completeChar lead (more ++ rest) = (some c.toNat, rest) := by
  have hvalid : c.toNat < 0xD800 ∨ (0xDFFF < c.toNat ∧ c.toNat < 0x110000) := c.valid
  unfold utf8EncodeChar
  rw [show c.val.toNat = c.toNat from rfl]
  generalize c.toNat = v at hvalid ⊢
  dsimp only
  split
  case isTrue hv =>
    refine ⟨_, _, rfl, ?_⟩
    have hlead : (UInt8.ofNat v).toNat = v := toNat_ofNat (by omega)
    rw [completeChar, hlead, if_pos (by omega)]
    rfl
  case isFalse hv =>
    split
    case isTrue hv' =>
      refine ⟨_, _, rfl, ?_⟩
      have hlead : (UInt8.ofNat (v / 64 % 32 + 192)).toNat = v / 64 % 32 + 192 :=
        toNat_ofNat (by omega)
      rw [completeChar, hlead, if_neg (by omega), if_neg (by omega), if_pos (by omega), List.singleton_append,
        continuation_ofNat (by omega) (by omega) (by omega), continuation]
      exact congrArg (fun n => (some n, rest)) (by omega)
    case isFalse hv' =>
      split
      case isTrue hv'' =>
        refine ⟨_, _, rfl, ?_⟩
        have hlead : (UInt8.ofNat (v / 4096 % 16 + 224)).toNat = v / 4096 % 16 + 224 :=
          toNat_ofNat (by omega)
        have hlow : (if v / 4096 % 16 + 224 = 0xE0 then 0xA0 else 0x80) ≤ v / 64 % 64 + 128 := by
          split <;> omega
        have hhigh : v / 64 % 64 + 128 ≤ (if v / 4096 % 16 + 224 = 0xED then 0x9F else 0xBF) := by
          split <;> omega
        rw [completeChar, hlead, if_neg (by omega), if_neg (by omega), if_neg (by omega), if_pos (by omega),
          List.cons_append, List.singleton_append, continuation_ofNat hlow hhigh (by omega),
          continuation_ofNat (by omega) (by omega) (by omega), continuation]
        exact congrArg (fun n => (some n, rest)) (by omega)
      case isFalse hv'' =>
        refine ⟨_, _, rfl, ?_⟩
        have hlead : (UInt8.ofNat (v / 262144 % 8 + 240)).toNat = v / 262144 % 8 + 240 :=
          toNat_ofNat (by omega)
        have hlow : (if v / 262144 % 8 + 240 = 0xF0 then 0x90 else 0x80) ≤ v / 4096 % 64 + 128 := by
          split <;> omega
        have hhigh : v / 4096 % 64 + 128 ≤ (if v / 262144 % 8 + 240 = 0xF4 then 0x8F else 0xBF) := by
          split <;> omega
        rw [completeChar, hlead, if_neg (by omega), if_neg (by omega), if_neg (by omega), if_neg (by omega),
          if_pos (by omega), List.cons_append, List.cons_append, List.singleton_append,
          continuation_ofNat hlow hhigh (by omega), continuation_ofNat (by omega) (by omega) (by omega),
          continuation_ofNat (by omega) (by omega) (by omega), continuation]
        exact congrArg (fun n => (some n, rest)) (by omega)

/-- The bytes of a text are read as this text, whatever follows them. -/
theorem decodeLossyBytes_encoded (cs : List Char) (rest : List UInt8) :
    decodeLossyBytes (cs.flatMap utf8EncodeChar ++ rest) = cs ++ decodeLossyBytes rest := by
  induction cs with
  | nil => rfl
  | cons c cs ih =>
    obtain ⟨lead, more, hbytes, hread⟩ := exists_completeChar c (cs.flatMap utf8EncodeChar ++ rest)
    rw [List.flatMap_cons, hbytes, List.append_assoc, List.cons_append, decodeLossyBytes, hread]
    simp [ih]

/-- A text is well formed. -/
theorem fromUTF8?_toUTF8 (s : String) : String.fromUTF8? s.toUTF8 = some s := dif_pos s.isValidUTF8

/-- Nothing of a text is lost on the way through its bytes. -/
theorem decodeLossy_toUTF8 (s : String) : decodeLossy s.toUTF8 = s := by
  have hdecoded := decodeLossyBytes_encoded s.toList []
  rw [List.append_nil, decodeLossyBytes, List.append_nil] at hdecoded
  rw [decodeLossy, toList_toUTF8, hdecoded, String.ofList_toList]

end Characters

section Basic

variable {b : UInt8}

/-- A byte of basic Latin is no part of any other character. -/
theorem continuation_append {low : Nat} (hlow : 0x80 ≤ low) (hb : b.toNat < 0x80) (high value n : Nat)
    (bs more : List UInt8) : continuation low high value n (bs ++ b :: more) =
      ((continuation low high value n bs).1, (continuation low high value n bs).2 ++ b :: more) := by
  induction n generalizing low high value bs with
  | zero => rfl
  | succ n ih =>
    cases bs with
    | nil =>
      have hout : ¬(low ≤ b.toNat ∧ b.toNat ≤ high) := by omega
      exact if_neg hout
    | cons a bs =>
      rw [List.cons_append, continuation, continuation]
      split
      · exact ih (Nat.le_refl _) _ _ _
      · rfl

theorem completeChar_append (hb : b.toNat < 0x80) (lead : UInt8) (bs more : List UInt8) :
    completeChar lead (bs ++ b :: more) =
      ((completeChar lead bs).1, (completeChar lead bs).2 ++ b :: more) := by
  unfold completeChar
  dsimp only
  split
  · rfl
  split
  · rfl
  split
  · exact continuation_append (by omega) hb _ _ _ _ _
  split
  · exact continuation_append (by split <;> omega) hb _ _ _ _ _
  split
  · exact continuation_append (by split <;> omega) hb _ _ _ _ _
  · rfl

/-- What stands in front of a byte of basic Latin is read on its own. -/
theorem decodeLossyBytes_append (hb : b.toNat < 0x80) (bs more : List UInt8) :
    decodeLossyBytes (bs ++ b :: more) = decodeLossyBytes bs ++ decodeLossyBytes (b :: more) := by
  fun_induction decodeLossyBytes bs with
  | case1 => rfl
  | case2 a bs _ ih =>
    rw [List.cons_append, decodeLossyBytes, completeChar_append hb, ih]
    rfl

/-- Each continuation byte adds six bits below those that there are. -/
theorem le_continuation {low high value n v : Nat} {bs rest : List UInt8}
    (h : continuation low high value n bs = (some v, rest)) : value * 64 ^ n ≤ v := by
  induction n generalizing low high value bs with
  | zero =>
    obtain ⟨hv, -⟩ := Prod.mk.inj h
    rw [Option.some.inj hv, Nat.pow_zero, Nat.mul_one]
  | succ n ih =>
    cases bs with
    | nil => cases h
    | cons a bs =>
      rw [continuation] at h
      split at h
      · calc value * 64 ^ (n + 1) = value * 64 * 64 ^ n := by
              rw [Nat.pow_succ, Nat.mul_comm (64 ^ n), Nat.mul_assoc]
          _ ≤ (value * 64 + (a.toNat - 0x80)) * 64 ^ n := Nat.mul_le_mul_right _ (Nat.le_add_right _ _)
          _ ≤ v := ih h
      · cases h

theorem le_continuation_succ {low high value n v : Nat} {bs rest : List UInt8}
    (h : continuation low high value (n + 1) bs = (some v, rest)) :
    (value * 64 + (low - 0x80)) * 64 ^ n ≤ v := by
  cases bs with
  | nil => cases h
  | cons a bs =>
    rw [continuation] at h
    split at h
    · exact (Nat.mul_le_mul_right _ (by omega)).trans (le_continuation h)
    · cases h

/-- A character of basic Latin is read from its own byte only. -/
theorem completeChar_of_lt {lead : UInt8} {bs rest : List UInt8} {v : Nat}
    (h : completeChar lead bs = (some v, rest)) (hv : v < 0x80) : lead.toNat = v ∧ rest = bs := by
  unfold completeChar at h
  dsimp only at h
  split at h
  · obtain ⟨hvalue, hrest⟩ := Prod.mk.inj h
    exact ⟨Option.some.inj hvalue, hrest.symm⟩
  split at h
  · cases h
  split at h
  · have := le_continuation h
    omega
  split at h
  · have := le_continuation_succ h
    split at this <;> omega
  split at h
  · have := le_continuation_succ h
    split at this <;> omega
  · cases h

theorem continuation_suffix (low high value n : Nat) (bs : List UInt8) :
    (continuation low high value n bs).2 <:+ bs := by
  induction n generalizing low high value bs with
  | zero => exact List.suffix_rfl
  | succ n ih =>
    cases bs with
    | nil => exact List.suffix_rfl
    | cons a bs =>
      rw [continuation]
      split
      · exact (ih _ _ _ _).trans (List.suffix_cons a bs)
      · exact List.suffix_rfl

theorem completeChar_suffix (lead : UInt8) (bs : List UInt8) : (completeChar lead bs).2 <:+ bs := by
  unfold completeChar
  dsimp only
  repeat' split
  all_goals first | exact List.suffix_rfl | exact continuation_suffix _ _ _ _ _

/-- Characters of basic Latin other than the null character. -/
def Basic (cs : List Char) : Prop := ∀ c ∈ cs, c ≠ '\x00' ∧ c.toNat < 0x80

instance (cs : List Char) : Decidable (Basic cs) := List.decidableBAll _ cs

theorem utf8EncodeChar_of_lt {c : Char} (h : c.toNat < 0x80) : utf8EncodeChar c = [UInt8.ofNat c.toNat] := by
  have hle : c.val.toNat ≤ 0x7f := Nat.le_of_lt_succ h
  rw [utf8EncodeChar]
  exact if_pos hle

/-- A character is told by its number, unless the number is none of a character. -/
theorem toNat_of_ofNat {n : Nat} {c : Char} (h : Char.ofNat n = c) (hnull : c ≠ '\x00') : n = c.toNat := by
  by_cases hvalid : n.isValidChar
  · have hchar : Char.ofNat n = Char.ofNatAux n hvalid := dif_pos hvalid
    rw [← h, hchar]
    rfl
  · exact (hnull (h.symm.trans (dif_neg hvalid))).elim

theorem prefix_of_decoded {p : List Char} (hp : Basic p) {bs : List UInt8} (h : p <+: decodeLossyBytes bs) :
    p.flatMap utf8EncodeChar <+: bs := by
  induction p generalizing bs with
  | nil => exact List.nil_prefix
  | cons c p ih =>
    obtain ⟨⟨hnull, hlt⟩, hp⟩ := List.forall_mem_cons.1 hp
    cases bs with
    | nil =>
      rw [decodeLossyBytes] at h
      exact absurd h (by simp)
    | cons b bs =>
      rw [decodeLossyBytes, List.cons_prefix_cons] at h
      obtain ⟨hc, h⟩ := h
      rcases hread : completeChar b bs with ⟨_ | v, rest⟩
      · rw [hread] at hc
        rw [hc] at hlt
        exact absurd hlt (show ¬replacement.toNat < 0x80 by decide)
      · rw [hread] at hc h
        obtain rfl := toNat_of_ofNat hc.symm hnull
        obtain ⟨hb, rfl⟩ := completeChar_of_lt hread hlt
        rw [List.flatMap_cons, utf8EncodeChar_of_lt hlt, ← hb, UInt8.ofNat_toNat]
        exact List.cons_prefix_cons.2 ⟨rfl, ih hp h⟩

theorem infix_of_decoded {p : List Char} (hp : Basic p) {bs : List UInt8} (h : p <:+: decodeLossyBytes bs) :
    p.flatMap utf8EncodeChar <:+: bs := by
  fun_induction decodeLossyBytes bs with
  | case1 =>
    rw [List.infix_nil.1 h]
    exact List.nil_infix
  | case2 b bs _ ih =>
    rcases List.infix_cons_iff.1 h with h | h
    · refine (prefix_of_decoded hp ?_).isInfix
      rw [decodeLossyBytes]
      exact h
    · exact ((ih h).trans (completeChar_suffix b bs).isInfix).trans (List.suffix_cons b bs).isInfix

end Basic

end InlineImpact.Text
