import InlineImpact.Text.Quoted

/-!
Dates, and moments of a day, in the calendar that is in use today, as if it had always been. A moment
may say how far its clock is from universal time; moments that do are the same when they fall
together.
-/
namespace InlineImpact

structure Date where
  year : Nat
  month : Nat
  day : Nat
  deriving DecidableEq, Repr

namespace Date

def isLeap (year : Nat) : Bool := year % 4 = 0 && (year % 100 ≠ 0 || year % 400 = 0)

def daysIn (year month : Nat) : Nat :=
  if month = 2 then if isLeap year then 29 else 28
  else if [4, 6, 9, 11].contains month then 30 else 31

/-- The date, if the calendar has it; years have up to four digits. -/
def ofParts? (year month day : Nat) : Option Date :=
  if 1 ≤ year ∧ year ≤ 9999 ∧ 1 ≤ month ∧ month ≤ 12 ∧ 1 ≤ day ∧ day ≤ daysIn year month then
    some ⟨year, month, day⟩
  else none

/-- The number of days before the date. -/
def number (d : Date) : Nat :=
  let years := d.year - 1
  let months := ((List.range (d.month - 1)).map fun m => daysIn d.year (m + 1)).foldl (· + ·) 0
  years * 365 + years / 4 - years / 100 + years / 400 + months + d.day - 1

end Date

/-- A number with zeros in front of it, at least this wide. -/
def padded (width n : Nat) : String :=
  let ds := (toString n).toList
  String.ofList (List.replicate (width - ds.length) '0' ++ ds)

def Date.text (d : Date) : String :=
  padded 4 d.year ++ "-" ++ padded 2 d.month ++ "-" ++ padded 2 d.day

/-- The date as it is listed inside of other values. -/
def Date.listing (d : Date) : String :=
  "datetime.date(" ++ ", ".intercalate ([d.year, d.month, d.day].map toString) ++ ")"

structure Moment where
  date : Date
  hour : Nat
  minute : Nat
  second : Nat
  /-- Millionths of a second. -/
  fraction : Nat := 0
  /-- Minutes that the clock is ahead of universal time. -/
  offset : Option Int := none
  deriving DecidableEq, Repr

namespace Moment

/-- Clocks are less than a day away from universal time. -/
def isValid (m : Moment) : Bool :=
  m.hour < 24 && m.minute < 60 && m.second < 60 && m.fraction < 1000000 &&
    m.offset.all fun o => o.natAbs < 1440

/-- Seconds and millionths of universal time. -/
def instant (m : Moment) (offset : Int) : Int × Nat :=
  (((m.date.number * 24 + m.hour) * 60 + m.minute : Nat) * 60 + m.second - offset * 60, m.fraction)

/-- The moments fall together. -/
def same (a b : Moment) : Bool :=
  match a.offset, b.offset with
  | some o, some p => a.instant o == b.instant p
  | none, none => a == b
  | _, _ => false

def offsetText (o : Int) : String :=
  (if o < 0 then "-" else "+") ++ padded 2 (o.natAbs / 60) ++ ":" ++ padded 2 (o.natAbs % 60)

def text (m : Moment) : String :=
  m.date.text ++ " " ++ padded 2 m.hour ++ ":" ++ padded 2 m.minute ++ ":" ++ padded 2 m.second ++
    (if m.fraction = 0 then "" else "." ++ padded 6 m.fraction) ++ m.offset.elim "" offsetText

/-- A distance from universal time in whole days, which may be negative, and seconds. -/
def offsetListing (o : Int) : String :=
  if o = 0 then "datetime.timezone.utc"
  else
    let days := (o * 60).fdiv 86400
    let seconds := (o * 60).fmod 86400
    let parts := (if days = 0 then [] else ["days=" ++ toString days]) ++
      (if seconds = 0 then [] else ["seconds=" ++ toString seconds])
    "datetime.timezone(datetime.timedelta(" ++ ", ".intercalate parts ++ "))"

/-- The moment as it is listed inside of other values: seconds that are zero are left out. -/
def listing (m : Moment) : String :=
  let tail := if m.fraction ≠ 0 then [m.second, m.fraction]
    else if m.second ≠ 0 then [m.second] else []
  let numbers := [m.date.year, m.date.month, m.date.day, m.hour, m.minute] ++ tail
  let zone := m.offset.elim [] fun o => ["tzinfo=" ++ offsetListing o]
  "datetime.datetime(" ++ ", ".intercalate (numbers.map toString ++ zone) ++ ")"

end Moment

end InlineImpact
