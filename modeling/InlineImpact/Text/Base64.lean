import InlineImpact.Text.Numeral

/-!
Bytes written in an alphabet of sixty-four characters. Characters outside the alphabet are passed
over, and nothing is read after the padding that completes a group.
-/
namespace InlineImpact.Text

/-- The value of a character of the alphabet. -/
def sixBits? (c : Char) : Option Nat :=
  if 'A' ≤ c ∧ c ≤ 'Z' then some (c.toNat - 65)
  else if 'a' ≤ c ∧ c ≤ 'z' then some (c.toNat - 71)
  else if c.isDigit then some (c.toNat + 4)
  else if c == '+' then some 62
  else if c == '/' then some 63
  else none

/-- Reads groups of four; `group` holds what is read of the current one, `pads` counts the padding
that follows it. -/
def readGroups (group : List Nat) (pads : Nat) : List Char → Option (List Nat)
  | [] => if group.isEmpty then some [] else none
  | c :: rest =>
    if c == '=' then
      if 2 ≤ group.length && 4 ≤ group.length + (pads + 1) then some (bytesOf group)
      else readGroups group (if 2 ≤ group.length then pads + 1 else pads) rest
    else match sixBits? c with
      | none => readGroups group pads rest
      | some d =>
        if group.length = 3 then (readGroups [] 0 rest).map (bytesOf (group ++ [d]) ++ ·)
        else readGroups (group ++ [d]) 0 rest
where
  bytesOf (group : List Nat) : List Nat :=
    match group with
    | [a, b] => [a * 4 + b / 16]
    | [a, b, c] => [a * 4 + b / 16, b % 16 * 16 + c / 4]
    | [a, b, c, d] => [a * 4 + b / 16, b % 16 * 16 + c / 4, c % 4 * 64 + d]
    | _ => []

/-- The bytes that a text stands for, if its groups are complete. -/
def readBase64? (s : List Char) : Option (List UInt8) :=
  (readGroups [] 0 s).map (·.map UInt8.ofNat)

end InlineImpact.Text
