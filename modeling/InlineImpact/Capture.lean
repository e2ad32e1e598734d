import InlineImpact.Failure
import InlineImpact.Json.Reader

/-!
Counter captures: a file with one record per line. A record that is incomplete or mistyped is dropped
like a line that cannot be read at all; a number that its type cannot hold spoils the whole capture.
-/
namespace InlineImpact.Capture

/-- The counter of a process went around `count` times. -/
structure Rollover where
  time : Float
  process : Int
  count : Int

/-- A process worked on one iteration. -/
structure Iteration where
  start : Float
  finish : Float
  process : Int

inductive Record where
  | rollover (r : Rollover)
  | iteration (i : Iteration)
  | calls (key : String) (count : Int)

structure Events where
  rollovers : List Rollover := []
  iterations : List Iteration := []
  calls : Keyed String Int := []

/-- A field as a double. -/
def toFloat (what : String) : Json → Except Failure Float
  | .int n => match Decimal.floatOfInt? n with
    | some x => .ok x
    | none => .error (.outOfRange what)
  | .float x => .ok x
  | .bool b => .ok (if b then 1.0 else 0.0)
  | .string s => match Text.readFloat? s.toList with
    | some x => .ok x
    | none => .error (.badValue what)
  | _ => .error (.wrongKind what)

/-- A field as an integer; a fraction is cut off. -/
def toInt (what : String) : Json → Except Failure Int
  | .int n => .ok n
  | .float x => match Decimal.truncate? x with
    | some n => .ok n
    | none => .error (if x.isNaN then .badValue what else .outOfRange what)
  | .bool b => .ok (if b then 1 else 0)
  | .string s => match Text.readInt? s.toList with
    | some n => .ok n
    | none => .error (.badValue what)
  | _ => .error (.wrongKind what)

def required (record : Json) (name : String) : Except Failure Json :=
  match record.field? name with
  | some v => .ok v
  | none => .error (.missingKey name)

def optional (record : Json) (name : String) (value : Int) : Json :=
  (record.field? name).getD (.int value)

/-- The written form of the method that a text names; without a hash, that of the token alone. -/
def methodKey? (s : List Char) : Option String := do
  let (token, hash) := Text.cutAt ':' (Text.trim s)
  if hash.isEmpty then return Text.hex8 (← Text.readHex? token)
  else return (MethodId.mk (← Text.readHex? token) (← Text.readHex? hash)).text

/-- The text of a method field. A number is taken by its digits; nothing else names a method. -/
def methodText : Json → List Char
  | .string s => s.toList
  | .int n => (toString n).toList
  | _ => []

def readRollover (record : Json) : Except Failure Rollover := do
  let time ← toFloat "ts" (← required record "ts")
  let process ← toInt "pid" (optional record "pid" 0)
  let count ← toInt "count" (optional record "count" 1)
  return ⟨time, process, count⟩

def readIteration (record : Json) : Except Failure Iteration := do
  let start ← toFloat "start" (← required record "start")
  let finish ← toFloat "end" (← required record "end")
  let process ← toInt "pid" (optional record "pid" 0)
  return ⟨start, finish, process⟩

def readCalls (record : Json) : Except Failure Record := do
  match methodKey? (methodText (← required record "method")) with
  | none => .error (.badValue "method")
  | some key => return .calls key (← toInt "count" (← required record "count"))

/-- Reads the record of an object, if it is of a known kind. -/
def readRecord (record : Json) : Except Failure (Option Record) :=
  match record.field? "kind" with
  | some (.string "pmc") => (readRollover record).map fun r => some (.rollover r)
  | some (.string "iteration") => (readIteration record).map fun i => some (.iteration i)
  | some (.string "calls") => (readCalls record).map some
  | _ => .ok none

/-- The record may be dropped and the capture still be used. -/
def isContained : Failure → Bool
  | .missingKey _ | .wrongKind _ | .badValue _ => true
  | _ => false

/-- Reads the record of a line, if the line holds one. -/
def readLine (line : List Char) : Except Failure (Option Record) :=
  match Json.read (Text.trim line) with
  | .error .malformed => .ok none
  | .error .tooManyDigits => .error (.badValue "number with too many digits")
  | .ok record =>
    match readRecord record with
    | .ok r => .ok r
    | .error e => if isContained e then .ok none else .error e

def Events.add (events : Events) : Record → Events
  | .rollover r => { events with rollovers := r :: events.rollovers }
  | .iteration i => { events with iterations := i :: events.iterations }
  | .calls key count =>
    { events with calls := events.calls.put key ((events.calls.get? key).getD 0 + count) }

/-- The events of some records, in their order. -/
def Events.ofRecords (records : List Record) : Events :=
  let events := records.foldl Events.add {}
  { events with
    rollovers := events.rollovers.reverse, iterations := events.iterations.reverse }

/-- Reads the records of a capture. -/
def readRecords (text : List Char) : Except Failure (List Record) := do
  return ((← (Text.splitAtEach '\n' text).mapM readLine).filterMap id)

/-- Reads a capture file, which has to be well-formed text. -/
def readEvents (ws : Workspace) (path : String) : Except Failure Events := do
  let bytes ← (ws.read path).mapError .storage
  match Workspace.decode? bytes with
  | none => .error (.notText path)
  | some text => return .ofRecords (← readRecords text)

end InlineImpact.Capture
