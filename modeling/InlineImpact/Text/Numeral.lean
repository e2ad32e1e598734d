import InlineImpact.Text.Digit
import InlineImpact.Decimal.Binary

/-!
Numerals in running text. An integer is a sign and digits, single underscores between digits, in
base ten or sixteen; a decimal numeral may have a fraction and an exponent. Blanks around a numeral
and digits of any script are accepted.
-/
namespace InlineImpact.Text

/-- The value of an ASCII digit or letter, below 36. -/
def asciiDigit? (c : Char) : Option Nat :=
  if c.isDigit then some (c.toNat - 48)
  else if 'a' ≤ c ∧ c ≤ 'z' then some (c.toNat - 87)
  else if 'A' ≤ c ∧ c ≤ 'Z' then some (c.toNat - 55)
  else none

def digitIn? (base : Nat) (c : Char) : Option Nat :=
  (asciiDigit? c).filter (· < base)

/-- The number with these digits, the highest first. -/
def ofDigits (base : Nat) (ds : List Nat) : Nat :=
  ds.foldl (fun n d => n * base + d) 0

/-- Digits with at most one underscore between two of them, and nothing else. -/
def digits? (base : Nat) : List Char → Option (List Nat)
  | [] => none
  | [c] => (digitIn? base c).map ([·])
  | c :: '_' :: rest => do return (← digitIn? base c) :: (← digits? base rest)
  | c :: rest => do return (← digitIn? base c) :: (← digits? base rest)

/-- Splits an optional sign off; the flag is set for a minus. -/
def splitSign : List Char → Bool × List Char
  | '-' :: rest => (true, rest)
  | '+' :: rest => (false, rest)
  | s => (false, s)

def withSign (negative : Bool) (n : Nat) : Int := if negative then -n else n

/-- The blanks that may surround a numeral. Of the control characters only the layout ones. -/
def isNumeralBlank (c : Char) : Bool := (9 ≤ c.toNat && c.toNat ≤ 13) || c == ' '

/-- A numeral in basic Latin without the blanks around it. -/
def plainNumeral (s : List Char) : List Char := trimEnds isNumeralBlank (s.map plainForm)

/-- The most digits that a base ten integer may have. -/
def maxDigits : Nat := 4300

/-- The integer has no more digits than may be written in base ten. -/
def isWritable (n : Int) : Bool := (Nat.toDigits 10 n.natAbs).length ≤ maxDigits

/-- Reads an integer in base ten of at most `maxDigits` digits. -/
def readInt? (s : List Char) : Option Int := do
  let (negative, body) := splitSign (plainNumeral s)
  let ds ← digits? 10 body
  if ds.length ≤ maxDigits then return withSign negative (ofDigits 10 ds) else none

/-- Drops the mark of a base, with the underscore that may follow it. -/
def dropMark (mark : Char) (s : List Char) : List Char :=
  match s with
  | '0' :: c :: rest =>
    if c.toLower == mark then
      match rest with
      | '_' :: ds => ds
      | ds => ds
    else s
  | _ => s

/-- Reads an integer in another base than ten; a zero and the base's mark may follow the sign. -/
def readBased? (base : Nat) (mark : Char) (s : List Char) : Option Int := do
  let (negative, body) := splitSign (plainNumeral s)
  return withSign negative (ofDigits base (← digits? base (dropMark mark body)))

/-- Reads an integer in base sixteen. -/
def readHex? (s : List Char) : Option Int := readBased? 16 'x' s

/-- Drops underscores that stand between two digits; any other underscore is refused. -/
def joinDigits? (before : Bool) : List Char → Option (List Char)
  | [] => some []
  | '_' :: c :: rest =>
    if before && c.isDigit then (joinDigits? true rest).map (c :: ·) else none
  | c :: rest => if c == '_' then none else (joinDigits? c.isDigit rest).map (c :: ·)

/-- The digits of an exponent and their sign, if the text is one. -/
def exponent? : List Char → Option Int
  | [] => some 0
  | c :: rest =>
    if c == 'e' || c == 'E' then
      let (negative, body) := splitSign rest
      if body.isEmpty || !body.all Char.isDigit then none
      else some (withSign negative (ofDigits 10 (body.filterMap asciiDigit?)))
    else none

/-- An unsigned decimal numeral with an optional fraction and exponent. -/
def unsignedDecimal? (s : List Char) : Option Float := do
  let whole := s.takeWhile Char.isDigit
  let rest := s.dropWhile Char.isDigit
  let (fraction, rest) := match rest with
    | '.' :: more => (more.takeWhile Char.isDigit, more.dropWhile Char.isDigit)
    | _ => ([], rest)
  if whole.isEmpty && fraction.isEmpty then none
  else
    let e ← exponent? rest
    return Decimal.nearest (ofDigits 10 ((whole ++ fraction).filterMap asciiDigit?))
      (e - fraction.length)

/-- Reads a double: a decimal numeral, or a name of infinity or of the quiet not-a-number value. -/
def readFloat? (s : List Char) : Option Float := do
  let (negative, body) := splitSign (← joinDigits? false (plainNumeral s))
  let word := String.ofList (body.map Char.toLower)
  let x ←
    if word == "inf" || word == "infinity" then some Decimal.infinity
    else if word == "nan" then some Decimal.nan
    else unsignedDecimal? body
  return if negative then -x else x

end InlineImpact.Text
