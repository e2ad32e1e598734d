import InlineImpact.Decimal.Rounding
import InlineImpact.Failure
import InlineImpact.Text.Numeral

/-!
How a value is laid out in a field of a template: `[[fill]align][sign][z][#][0][width][,|_][.places][kind]`.
Texts may be cut and filled up; integers are written in a base, with or without groups of digits, as
one character, or as a decimal number with an exponent or a fixed number of places.
-/
namespace InlineImpact.Template

inductive Alignment where
  | left | right | center
  /-- The filling stands between the sign and the digits. -/
  | inner
  deriving DecidableEq, Repr

structure Layout where
  fill : Char
  /-- Without one, texts stand left and numbers right. -/
  align : Option Alignment
  sign : Option Char
  dropsZeroSign : Bool
  /-- Marks the base of a number, and keeps a decimal point that nothing follows. -/
  alternate : Bool
  width : Option Nat
  separator : Option Char
  places : Option Nat
  kind : Option Char
  deriving DecidableEq, Repr

/-- The greatest number that may stand in a template. -/
def maxNumber : Nat := Nat.pow 2 63 - 1

/-- The number at the front of a text, in digits of any script, and the rest. -/
def number? (found : Option Nat) : List Char → Except TemplateFault (Option Nat × List Char)
  | [] => .ok (found, [])
  | c :: rest =>
    match Text.decimalValue? c with
    | none => .ok (found, c :: rest)
    | some d =>
      let n := found.getD 0 * 10 + d
      if maxNumber < n then .error .malformed else number? (some n) rest

namespace Layout

def alignment? : Char → Option Alignment
  | '<' => some .left
  | '>' => some .right
  | '^' => some .center
  | '=' => some .inner
  | _ => none

/-- A mark of alignment, which the character to fill with may precede. -/
def splitAlignment : List Char → Option Char × Option Alignment × List Char
  | [] => (none, none, [])
  | [c] =>
    match alignment? c with
    | some a => (none, some a, [])
    | none => (none, none, [c])
  | c :: d :: rest =>
    match alignment? d, alignment? c with
    | some a, _ => (some c, some a, rest)
    | none, some a => (none, some a, d :: rest)
    | none, none => (none, none, c :: d :: rest)

def splitFlag (p : Char → Bool) : List Char → Option Char × List Char
  | [] => (none, [])
  | c :: rest => if p c then (some c, rest) else (none, c :: rest)

/-- Digits of these kinds may be grouped. A comma groups by thousands only. -/
def groups (separator kind : Char) : Bool :=
  "deEfFgG%".toList.contains kind || separator == '_' && "boxX".toList.contains kind

/-- The number after a point, which has to be there. -/
def splitPlaces (s : List Char) : Except TemplateFault (Option Nat × List Char) := do
  match splitFlag (· == '.') s with
  | (none, s) => return (none, s)
  | (some _, s) =>
    match ← number? none s with
    | (none, _) => .error .malformed
    | (places, s) => return (places, s)

def kindOf : List Char → Except TemplateFault (Option Char)
  | [] => .ok none
  | [c] => .ok (some c)
  | _ => .error .malformed

/-- Reads a layout for a text, or for a number. -/
def read (numeric : Bool) (s : List Char) : Except TemplateFault Layout := do
  let (fill, align, s) := splitAlignment s
  let (sign, s) := splitFlag (fun c => c == ' ' || c == '+' || c == '-') s
  let (dropped, s) := splitFlag (· == 'z') s
  let (alternate, s) := splitFlag (· == '#') s
  let (zero, s) := if fill.isNone then splitFlag (· == '0') s else (none, s)
  let (width, s) ← number? none s
  let (comma, s) := splitFlag (· == ',') s
  let (underscore, s) := splitFlag (· == '_') s
  if underscore.isSome && (comma.isSome || s.head? == some ',') then .error .malformed
  let (places, s) ← splitPlaces s
  let kind ← kindOf s
  let separator := comma <|> underscore
  if separator.any fun c => !groups c (kind.getD (if numeric then 'd' else 's')) then
    .error .malformed
  return {
    fill := fill.getD (if zero.isSome then '0' else ' ')
    align := if zero.isSome && align.isNone && numeric then some .inner else align
    sign, dropsZeroSign := dropped.isSome, alternate := alternate.isSome
    width, separator, places, kind }

def filling (l : Layout) (n : Nat) : List Char := List.replicate n l.fill

/-- The missing characters at the front, after the sign, and at the end. -/
def padding (l : Layout) (default : Alignment) (length : Nat) :
    List Char × List Char × List Char :=
  let missing := l.width.getD 0 - length
  match l.align.getD default with
  | .left => ([], [], l.filling missing)
  | .right => (l.filling missing, [], [])
  | .center => (l.filling (missing / 2), [], l.filling (missing - missing / 2))
  | .inner => ([], l.filling missing, [])

def text (l : Layout) (s : List Char) : Except TemplateFault (List Char) :=
  if l.kind.any (· != 's') || l.sign.isSome || l.dropsZeroSign || l.alternate || l.align == some .inner then
    .error .malformed
  else
    let s := s.take (l.places.getD s.length)
    let (front, _, back) := l.padding .left s.length
    .ok (front ++ s ++ back)

/-- The parts of a written number: marks of the base, digits that may be grouped, and all after them. -/
structure Numeral where
  mark : List Char
  digits : List Char
  tail : List Char

/-- Digits in reverse with a separator between groups, filled up with zeros to at least `width`
characters. -/
def grouped (size : Nat) (separator : Char) (width : Nat) (digits : List Char) : List Char :=
  if _h : size < max digits.length width ∧ 0 < size then
    (digits.take size ++ List.replicate (size - digits.length) '0') ++
      separator :: grouped size separator (max (width - size - 1) 1) (digits.drop size)
  else digits ++ List.replicate (max digits.length width - digits.length) '0'
termination_by 2 * digits.length + width
decreasing_by
  simp only [List.length_drop]
  omega

def groupSize (l : Layout) : Nat :=
  if "boxX".toList.contains (l.kind.getD 'd') then 4 else 3

def place (l : Layout) (negative : Bool) (n : Numeral) : List Char :=
  let sign := if negative then ['-'] else (l.sign.filter (· != '-')).toList
  let fixed := sign.length + n.mark.length + n.tail.length
  let least := if l.fill == '0' && l.align == some .inner then l.width.getD 0 - fixed else 0
  let digits :=
    if n.digits.isEmpty then []
    else match l.separator with
      | none => List.replicate (least - n.digits.length) '0' ++ n.digits
      | some c => (grouped l.groupSize c least n.digits.reverse).reverse
  let (front, inner, back) := l.padding .right (fixed + digits.length)
  front ++ sign ++ n.mark ++ inner ++ digits ++ n.tail ++ back

/-- An integer in one of the bases. -/
def inBase (base : Nat) (mark : List Char) (alternate : Bool) (n : Int) : Numeral :=
  ⟨if alternate then mark else [], Nat.toDigits base n.natAbs, []⟩

def upper (n : Numeral) : Numeral :=
  ⟨n.mark.map Char.toUpper, n.digits.map Char.toUpper, n.tail.map Char.toUpper⟩

def pointBefore (alternate : Bool) (fraction : List Char) : List Char :=
  if fraction.isEmpty && !alternate then [] else '.' :: fraction

def fixed (alternate : Bool) (places n : Nat) : Numeral :=
  ⟨[], Nat.toDigits 10 n, pointBefore alternate (List.replicate places '0')⟩

/-- The first `count` digits of a natural, rounded, and the power of ten of the first of them. -/
def leading (count n : Nat) : List Char × Nat :=
  let ds := Nat.toDigits 10 n
  if ds.length ≤ count then (ds ++ List.replicate (count - ds.length) '0', ds.length - 1)
  else
    let rounded := Nat.toDigits 10 (Decimal.roundDiv n (Nat.pow 10 (ds.length - count)))
    (rounded.take count, ds.length - 1 + (rounded.length - count))

def exponent (e : Nat) : List Char :=
  'e' :: '+' :: (if e < 10 then ['0'] else []) ++ Nat.toDigits 10 e

def scientific (alternate : Bool) (places n : Nat) : Numeral :=
  let (ds, e) := leading (places + 1) n
  ⟨[], ds.take 1, pointBefore alternate (ds.drop 1) ++ exponent e⟩

def withoutZeros (ds : List Char) : List Char := (ds.reverse.dropWhile (· == '0')).reverse

/-- With a number of significant digits; zeros at the end are dropped. -/
def general (alternate : Bool) (count n : Nat) : Numeral :=
  let (ds, e) := leading (max count 1) n
  let fraction (ds : List Char) := pointBefore alternate (if alternate then ds else withoutZeros ds)
  if e < max count 1 then ⟨[], ds.take (e + 1), fraction (ds.drop (e + 1))⟩
  else ⟨[], ds.take 1, fraction (ds.drop 1) ++ exponent e⟩

/-- The magnitude of the double nearest to an integer. -/
def rounded (n : Int) : Except TemplateFault Nat :=
  match (Decimal.floatOfInt? n).bind Decimal.truncate? with
  | some m => .ok m.natAbs
  | none => .error .outOfRange

/-- The most places that a decimal number may be written with. -/
def maxPlaces : Nat := Nat.pow 2 31 - 1

/-- A number as a decimal one of the given kind. -/
def decimal (l : Layout) (kind : Char) (n : Int) : Except TemplateFault Numeral := do
  let places := l.places.getD 6
  let m ← rounded n
  if maxPlaces < places then .error .malformed
  else if kind == 'f' then return fixed l.alternate places m
  else if kind == 'e' then return scientific l.alternate places m
  else if kind == 'g' then return general l.alternate places m
  else
    let percent := fixed l.alternate places (← rounded (100 * m))
    return { percent with tail := percent.tail ++ ['%'] }

def character (l : Layout) (n : Int) : Except TemplateFault Numeral :=
  if l.sign.isSome || l.alternate then .error .malformed
  else if n < 0 || 0x110000 ≤ n then .error .outOfRange
  else .ok ⟨[], [], [Char.ofNat n.toNat]⟩

/-- Digits in base ten, if there are not too many of them. -/
def wholeNumber (n : Int) : Except TemplateFault Numeral :=
  let ds := Nat.toDigits 10 n.natAbs
  if Text.maxDigits < ds.length then .error .malformed else .ok ⟨[], ds, []⟩

def integer (l : Layout) (n : Int) : Except TemplateFault (List Char) := do
  let kind := l.kind.getD 'd'
  let isDecimal := "eEfFgG%".toList.contains kind
  if !isDecimal && (l.places.isSome || l.dropsZeroSign) then .error .malformed
  match kind with
  | 'd' | 'n' => return l.place (n < 0) (← wholeNumber n)
  | 'b' => return l.place (n < 0) (inBase 2 ['0', 'b'] l.alternate n)
  | 'o' => return l.place (n < 0) (inBase 8 ['0', 'o'] l.alternate n)
  | 'x' => return l.place (n < 0) (inBase 16 ['0', 'x'] l.alternate n)
  | 'X' => return l.place (n < 0) (upper (inBase 16 ['0', 'x'] l.alternate n))
  | 'c' => return l.place false (← l.character n)
  | _ =>
    if !isDecimal then .error .malformed
    let numeral ← l.decimal kind.toLower n
    return l.place (n < 0) (if kind.isUpper then upper numeral else numeral)

end Layout

end InlineImpact.Template
