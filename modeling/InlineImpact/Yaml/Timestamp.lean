import InlineImpact.Calendar
import InlineImpact.Text.Numeral

/-!
Points of time in suite files: a day, or a day with a time and how far its clock is from universal
time.
-/
namespace InlineImpact.Yaml

structure Timestamp where
  year : Nat
  month : Nat
  day : Nat
  /-- Hour, minute, second, millionths, and minutes from universal time. -/
  time : Option (Nat × Nat × Nat × Nat × Option Int) := none

namespace Timestamp

/-- At least `least` and at most `most` digits at the front. -/
def digits? (least most : Nat) (s : List Char) : Option (Nat × List Char) :=
  let ds := (s.take most).takeWhile Char.isDigit
  if ds.length < least then none
  else some (Text.ofDigits 10 (ds.filterMap Text.asciiDigit?), s.drop ds.length)

def past? (c : Char) (s : List Char) : Option (List Char) :=
  if s.head? == some c then some s.tail else none

/-- Digits after a point as millionths; further digits are dropped. -/
def millionths (ds : List Char) : Nat :=
  let kept := ds.take 6
  Text.ofDigits 10 (kept.filterMap Text.asciiDigit? ++ List.replicate (6 - kept.length) 0)

def fraction (s : List Char) : Nat × List Char :=
  match s with
  | '.' :: rest => (millionths (rest.takeWhile Char.isDigit), rest.dropWhile Char.isDigit)
  | _ => (0, s)

/-- Minutes from universal time up to the end of the text; `some none` if it does not say. -/
def zone? (s : List Char) : Option (Option Int) :=
  if s.isEmpty then some none
  else match s.dropWhile (fun c => c == ' ' || c == '\t') with
    | ['Z'] => some (some 0)
    | sign :: rest =>
      if sign ≠ '+' && sign ≠ '-' then none
      else do
        let (hours, rest) ← digits? 1 2 rest
        let minutes ←
          if rest.isEmpty then some 0
          else do
            let (minutes, rest) ← digits? 2 2 (← past? ':' rest)
            if rest.isEmpty then some minutes else none
        return some (Text.withSign (sign == '-') (hours * 60 + minutes))
    | [] => none

/-- What stands between a day and a time: a letter, or blanks. -/
def separator? (s : List Char) : Option (List Char) :=
  match s with
  | c :: rest =>
    if c == 'T' || c == 't' then some rest
    else if c == ' ' || c == '\t' then some (rest.dropWhile fun c => c == ' ' || c == '\t')
    else none
  | [] => none

def read? (s : List Char) : Option Timestamp := do
  let (year, s) ← digits? 4 4 s
  let (month, s) ← digits? 1 2 (← past? '-' s)
  let (day, s) ← digits? 1 2 (← past? '-' s)
  if s.isEmpty then return { year, month, day }
  else
    let (hour, s) ← digits? 1 2 (← separator? s)
    let (minute, s) ← digits? 2 2 (← past? ':' s)
    let (second, s) ← digits? 2 2 (← past? ':' s)
    let (millionths, s) := fraction s
    return { year, month, day, time := some (hour, minute, second, millionths, ← zone? s) }

/-- A plain text is spelled like a point of time. A day alone has two digits for month and day. -/
def isSpelled (s : List Char) : Bool :=
  match read? s with
  | none => false
  | some t => t.time.isSome || s.length = 10

def date? (t : Timestamp) : Option Date := Date.ofParts? t.year t.month t.day

/-- The moment of a day, if both are in the calendar. -/
def moment? (t : Timestamp) : Option Moment := do
  let (hour, minute, second, fraction, offset) ← t.time
  let m : Moment := { date := ← t.date?, hour, minute, second, fraction, offset }
  if m.isValid then return m else none

end Timestamp

end InlineImpact.Yaml
