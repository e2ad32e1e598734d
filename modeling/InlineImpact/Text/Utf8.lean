/-!
UTF-8 with errors replaced. Each maximal piece of bytes that starts a character but does not complete
it, and each byte that cannot start one, is read as a single replacement character.
-/
namespace InlineImpact.Text

def replacement : Char := Char.ofNat 0xFFFD

/-- Reads `n` continuation bytes, the next of which has to lie between `low` and `high`. On failure
the byte that does not fit is left. -/
def continuation (low high : Nat) (value : Nat) : Nat → List UInt8 → Option Nat × List UInt8
  | 0, rest => (some value, rest)
  | _ + 1, [] => (none, [])
  | n + 1, b :: rest =>
    if low ≤ b.toNat ∧ b.toNat ≤ high then
      continuation 0x80 0xBF (value * 64 + (b.toNat - 0x80)) n rest
    else (none, b :: rest)

theorem length_continuation_le (low high value n : Nat) (bs : List UInt8) :
    (continuation low high value n bs).2.length ≤ bs.length := by
  induction n generalizing low high value bs with
  | zero => simp [continuation]
  | succ n ih =>
    cases bs with
    | nil => simp [continuation]
    | cons b rest =>
      simp only [continuation]
      split
      · exact Nat.le_succ_of_le (ih _ _ _ _)
      · exact Nat.le_refl _

/-- Completes the character that `lead` starts. -/
def completeChar (lead : UInt8) (rest : List UInt8) : Option Nat × List UInt8 :=
  let b := lead.toNat
  if b < 0x80 then (some b, rest)
  else if b < 0xC2 then (none, rest)
  else if b < 0xE0 then continuation 0x80 0xBF (b - 0xC0) 1 rest
  else if b < 0xF0 then
    continuation (if b = 0xE0 then 0xA0 else 0x80) (if b = 0xED then 0x9F else 0xBF) (b - 0xE0) 2 rest
  else if b < 0xF5 then
    continuation (if b = 0xF0 then 0x90 else 0x80) (if b = 0xF4 then 0x8F else 0xBF) (b - 0xF0) 3 rest
  else (none, rest)

theorem length_completeChar_le (lead : UInt8) (rest : List UInt8) :
    (completeChar lead rest).2.length ≤ rest.length := by
  simp only [completeChar]
  repeat' split
  all_goals first | exact Nat.le_refl _ | exact length_continuation_le _ _ _ _ _

def decodeLossyBytes : List UInt8 → List Char
  | [] => []
  | b :: rest =>
    have _h := length_completeChar_le b rest
    (((completeChar b rest).1.map Char.ofNat).getD replacement) ::
      decodeLossyBytes (completeChar b rest).2
termination_by bs => bs.length
decreasing_by
  simp only [List.length_cons]
  omega

/-- Reads bytes as text; what is not well formed is replaced. -/
def decodeLossy (bytes : ByteArray) : String := String.ofList (decodeLossyBytes bytes.toList)

end InlineImpact.Text
