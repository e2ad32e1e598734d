import InlineImpact.Json
import InlineImpact.Text.Numeral

/-!
Reading a value. The names of the doubles that are no numbers are accepted, and an escape for half of
a surrogate pair stands for the replacement character. An integer with more digits than
`Text.maxDigits` is a fault of its own, because it is well formed.
-/
namespace InlineImpact.Json

inductive Fault where
  | malformed
  | tooManyDigits
  deriving DecidableEq, Repr

def isJsonBlank (c : Char) : Bool := c == ' ' || c == '\t' || c == '\n' || c == '\r'

def skipBlanks (s : List Char) : List Char := s.dropWhile isJsonBlank

/-- The number written with exactly four digits in base sixteen. -/
def unit? : List Char → Option (Nat × List Char)
  | a :: b :: c :: d :: rest => do
    let ds ← [a, b, c, d].mapM (Text.digitIn? 16)
    return (Text.ofDigits 16 ds, rest)
  | _ => none

/-- The character of one or two escaped units; the first has just been read. -/
def pairUnits (first : Nat) (rest : List Char) : Char × List Char :=
  if 0xD800 ≤ first ∧ first < 0xDC00 then
    match rest with
    | '\\' :: 'u' :: more =>
      match unit? more with
      | some (second, after) =>
        if 0xDC00 ≤ second ∧ second < 0xE000 then
          (Char.ofNat (0x10000 + (first - 0xD800) * 0x400 + (second - 0xDC00)), after)
        else (Char.ofNat 0xFFFD, rest)
      | none => (Char.ofNat 0xFFFD, rest)
    | _ => (Char.ofNat 0xFFFD, rest)
  else if 0xDC00 ≤ first ∧ first < 0xE000 then (Char.ofNat 0xFFFD, rest)
  else (Char.ofNat first, rest)

def simpleEscape? : Char → Option Char
  | '"' => some '"'
  | '\\' => some '\\'
  | '/' => some '/'
  | 'b' => some (Char.ofNat 8)
  | 'f' => some (Char.ofNat 12)
  | 'n' => some '\n'
  | 'r' => some '\r'
  | 't' => some '\t'
  | _ => none

/-- The rest of a string after its opening quote; `read` holds what came before, in reverse. -/
def readString (read : List Char) : (fuel : Nat) → List Char → Except Fault (String × List Char)
  | 0, _ => .error .malformed
  | _ + 1, [] => .error .malformed
  | fuel + 1, c :: rest =>
    if c == '"' then .ok (String.ofList read.reverse, rest)
    else if c == '\\' then
      match rest with
      | 'u' :: more =>
        match unit? more with
        | some (n, after) =>
          let (c, after) := pairUnits n after
          readString (c :: read) fuel after
        | none => .error .malformed
      | e :: more =>
        match simpleEscape? e with
        | some c => readString (c :: read) fuel more
        | none => .error .malformed
      | [] => .error .malformed
    else if c.toNat < 32 then .error .malformed
    else readString (c :: read) fuel rest

/-- A fraction: a point and at least one digit. -/
def takeFraction : List Char → List Char × List Char
  | '.' :: rest =>
    if (rest.takeWhile Char.isDigit).isEmpty then ([], '.' :: rest)
    else (rest.takeWhile Char.isDigit, rest.dropWhile Char.isDigit)
  | s => ([], s)

/-- An exponent: its mark, an optional sign and at least one digit. -/
def takeExponent : List Char → Option Int × List Char
  | [] => (none, [])
  | c :: rest =>
    let (negative, body) := Text.splitSign rest
    let ds := body.takeWhile Char.isDigit
    if (c == 'e' || c == 'E') && !ds.isEmpty then
      (some (Text.withSign negative (Text.ofDigits 10 (ds.filterMap Text.asciiDigit?))),
        body.dropWhile Char.isDigit)
    else (none, c :: rest)

/-- The digits before the point: a single zero, or digits that start with another one. -/
def takeWhole : List Char → List Char × List Char
  | '0' :: rest => (['0'], rest)
  | s => (s.takeWhile Char.isDigit, s.dropWhile Char.isDigit)

def readNumber (negative : Bool) (s : List Char) : Except Fault (Json × List Char) :=
  let (whole, rest) := takeWhole s
  if whole.isEmpty then .error .malformed
  else
    let (fraction, rest) := takeFraction rest
    let (exponent, rest) := takeExponent rest
    if fraction.isEmpty && exponent.isNone then
      if Text.maxDigits < whole.length then .error .tooManyDigits
      else
        let n := Text.ofDigits 10 (whole.filterMap Text.asciiDigit?)
        .ok (.int (Text.withSign negative n), rest)
    else
      let m := Text.ofDigits 10 ((whole ++ fraction).filterMap Text.asciiDigit?)
      let x := Decimal.nearest m (exponent.getD 0 - fraction.length)
      .ok (.float (if negative then -x else x), rest)

/-- The words that are values. -/
def wordValues : List (List Char × Json) :=
  [("null".toList, .null), ("true".toList, .bool true), ("false".toList, .bool false),
    ("NaN".toList, .float Decimal.nan), ("Infinity".toList, .float Decimal.infinity),
    ("-Infinity".toList, .float (-Decimal.infinity))]

def readWord? (s : List Char) : Option (Json × List Char) :=
  (wordValues.find? fun (w, _) => w.isPrefixOf s).map fun (w, v) => (v, s.drop w.length)

mutual

/-- Reads a value off the front; it has to start with the first character. -/
def readValue : (fuel : Nat) → List Char → Except Fault (Json × List Char)
  | 0, _ => .error .malformed
  | fuel + 1, s =>
    match s with
    | '"' :: rest => do
      let (text, rest) ← readString [] (rest.length + 1) rest
      return (.string text, rest)
    | '[' :: rest =>
      match skipBlanks rest with
      | ']' :: more => .ok (.array [], more)
      | items => do
        let (vs, more) ← readItems fuel items
        return (.array vs, more)
    | '\x7b' :: rest =>
      match skipBlanks rest with
      | '\x7d' :: more => .ok (.object [], more)
      | fields => do
        let (fs, more) ← readFields fuel fields
        return (.object fs, more)
    | _ =>
      match readWord? s with
      | some found => .ok found
      | none =>
        match s with
        | '-' :: rest => readNumber true rest
        | _ => readNumber false s

/-- Reads the items of an array through its end. -/
def readItems : (fuel : Nat) → List Char → Except Fault (List Json × List Char)
  | 0, _ => .error .malformed
  | fuel + 1, s => do
    let (v, rest) ← readValue fuel s
    match skipBlanks rest with
    | ']' :: more => return ([v], more)
    | ',' :: more =>
      let (vs, after) ← readItems fuel (skipBlanks more)
      return (v :: vs, after)
    | _ => .error .malformed

/-- Reads the fields of an object through its end. -/
def readFields : (fuel : Nat) → List Char → Except Fault (List (String × Json) × List Char)
  | 0, _ => .error .malformed
  | fuel + 1, s =>
    match s with
    | '"' :: rest => do
      let (name, rest) ← readString [] (rest.length + 1) rest
      match skipBlanks rest with
      | ':' :: more =>
        let (v, after) ← readValue fuel (skipBlanks more)
        match skipBlanks after with
        | '\x7d' :: more => return ([(name, v)], more)
        | ',' :: more =>
          let (fs, after) ← readFields fuel (skipBlanks more)
          return ((name, v) :: fs, after)
        | _ => .error .malformed
      | _ => .error .malformed
    | _ => .error .malformed

end

/-- Reads a text that is one value, with blanks around it. -/
def read (s : List Char) : Except Fault Json := do
  let (v, rest) ← readValue (2 * s.length + 2) (skipBlanks s)
  if (skipBlanks rest).isEmpty then return v else .error .malformed

end InlineImpact.Json
