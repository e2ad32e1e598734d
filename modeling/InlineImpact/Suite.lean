import InlineImpact.Benchmark
import InlineImpact.Failure

/-!
Suites: files that list benchmarks. Paths in a suite are seen from its own directory.
-/
namespace InlineImpact.Suite

open Yaml (null)

/-- The entry has something of this name: a key, an item, or a part of a text. -/
def mentions (name : String) : Yaml → Except Failure Bool
  | .map pairs => .ok (pairs.any fun (k, _) => Yaml.sameKey k (.text name))
  | .list items | .set items => .ok (items.any (Yaml.sameKey (.text name)))
  | .pair k v => .ok ([k, v].any (Yaml.sameKey (.text name)))
  | .text s => .ok (Text.contains name.toList s.toList)
  | _ => .error (.wrongKind "entry")

/-- A required field; only mappings have fields. -/
def field (entry : Yaml) (name : String) : Except Failure Yaml :=
  match entry with
  | .map _ => match entry.field? name with
    | some v => .ok v
    | none => .error (.missingKey name)
  | _ => .error (.wrongKind "entry")

/-- Bytes as the characters that they are the numbers of. -/
def characters (bs : List UInt8) : List Char := bs.map fun b => Char.ofNat b.toNat

def readFloat (s : List Char) : Except Failure Float :=
  (Text.readFloat? s).elim (.error (.badValue "expected time")) .ok

def readInt (s : List Char) : Except Failure Int :=
  (Text.readInt? s).elim (.error (.badValue "exit code")) .ok

def toFloat : Yaml → Except Failure Float
  | .int n => match Decimal.floatOfInt? n with
    | some x => .ok x
    | none => .error (.outOfRange "expected time")
  | .float x => .ok x
  | .bool b => .ok (if b then 1.0 else 0.0)
  | .text s => readFloat s.toList
  | .bytes bs => readFloat (characters bs)
  | _ => .error (.wrongKind "expected time")

def toInt : Yaml → Except Failure Int
  | .int n => .ok n
  | .float x => match Decimal.truncate? x with
    | some n => .ok n
    | none => .error (if x.isNaN then .badValue "exit code" else .outOfRange "exit code")
  | .bool b => .ok (if b then 1 else 0)
  | .text s => readInt s.toList
  | .bytes bs => readInt (characters bs)
  | _ => .error (.wrongKind "exit code")

/-- The parts of a value: the items of a list, the keys of a mapping, the characters of a text, the
numbers of bytes. -/
def parts : Yaml → Except Failure (List Yaml)
  | .list items | .set items => .ok items
  | .pair k v => .ok [k, v]
  | .bytes bs => .ok (bs.map fun b => .int b.toNat)
  | .map pairs => .ok (pairs.map Prod.fst)
  | .text s => .ok (s.toList.map fun c => .text c.toString)
  | _ => .error (.wrongKind "list")

/-- A path of the suite, seen from the directory of the suite file. -/
def resolve (suite : PurePath) : Yaml → Except Failure String
  | .text s => .ok (suite.parent.join (.ofText s)).text
  | _ => .error (.wrongKind "path")

def readEntry (suite : PurePath) (entry : Yaml) : Except Failure Benchmark := do
  let complete ← if ← mentions "name" entry then mentions "path" entry else .ok false
  if !complete then .error (.suite (.incompleteEntry entry.display))
  else
    let path ← resolve suite (← field entry "path")
    let name ← field entry "name"
    let expectedTime ← toFloat ((entry.field? "expected_time").getD (.float 1.0))
    let exitCode ← toInt ((entry.field? "exit_code").getD (.int 100))
    let args ← parts ((entry.field? "args").getD (.list []))
    return {
      name := name.display, path, expectedTime, exitCode, args := args.map Yaml.display
      timeout := (entry.field? "timeout").getD .null }

/-- The entries of a suite; an empty suite has none. -/
def entries (suite : Yaml) : Except Failure (List Yaml) :=
  if suite.isFalsy then .ok []
  else match suite with
    | .map _ => parts ((suite.field? "benchmarks").getD (.list []))
    | _ => .error (.noSuchMember "benchmarks")

def ofFault : Yaml.Fault → Failure
  | .malformed => .malformedSuite
  | .badValue => .badValue "value"
  | .outOfRange => .outOfRange "value"
  | .unknownWord => .missingKey "truth value"
  | .noDigits => .missingItem "digits"
  | .noTime => .noSuchMember "time"

/-- The text of a suite as a value. -/
def readValue (text : List Char) : Except Failure Yaml := (Yaml.read text).mapError ofFault

/-- Loads the benchmarks of a suite file, of these names only unless none are given. -/
def load (ws : Workspace) (path : String) (only : List String) : Except Failure (List Benchmark) := do
  let suite := PurePath.ofText path
  if !ws.holds suite.text then .error (.suite (.notFound suite.text))
  else
    let bytes ← (ws.read suite.text).mapError .storage
    match Workspace.decode? bytes with
    | none => .error (.notText suite.text)
    | some text =>
      let benchmarks ← (← entries (← readValue text)).mapM (readEntry suite)
      return if only.isEmpty then benchmarks else benchmarks.filter fun b => only.contains b.name

end InlineImpact.Suite
