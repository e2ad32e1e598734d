import InlineImpact.Text.Blank

/-!
Decimal digits of every script. A script writes its ten digits at consecutive code points, so the
table holds only its zeros.
-/
namespace InlineImpact.Text

/-- The code points of the digit zero, one for each script. -/
def zeros : List Nat := [
  48, 1632, 1776, 1984, 2406, 2534, 2662, 2790, 2918, 3046, 3174, 3302, 3430, 3558, 3664, 3792,
  3872, 4160, 4240, 6112, 6160, 6470, 6608, 6784, 6800, 6992, 7088, 7232, 7248, 42528, 43216, 43264,
  43472, 43504, 43600, 44016, 65296, 66720, 68912, 69734, 69872, 69942, 70096, 70384, 70736, 70864,
  71248, 71360, 71472, 71904, 72016, 72784, 73040, 73120, 92768, 92864, 93008, 120782, 120792,
  120802, 120812, 120822, 123200, 123632, 125264, 130032]

/-- The value of a decimal digit of any script. -/
def decimalValue? (c : Char) : Option Nat :=
  if c.toNat < 128 then
    if c.isDigit then some (c.toNat - 48) else none
  else
    (zeros.find? fun z => z ≤ c.toNat && c.toNat < z + 10).map (c.toNat - ·)

/-- The basic Latin form of a character in a numeral: a digit of any script becomes the digit of the
same value, a blank becomes a space, and any other character outside basic Latin a mark that no
numeral holds. -/
def plainForm (c : Char) : Char :=
  if c.toNat < 127 then c
  else if isBlank c then ' '
  else match decimalValue? c with
    | some d => Char.ofNat (48 + d)
    | none => '?'

theorem plainForm_of_lt (c : Char) (h : c.toNat < 127) : plainForm c = c := by
  simp [plainForm, h]

end InlineImpact.Text
