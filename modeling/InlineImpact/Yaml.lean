import InlineImpact.Text.Base64
import InlineImpact.Yaml.Node
import InlineImpact.Yaml.Value

/-!
Reading suite files. The nodes of a file are turned into values level by level from the outside, so
of several faults the one that is least deep is reported, and of those the first.
-/
namespace InlineImpact.Yaml

/-! ### Texts of each kind -/

/-- What a text is read as, or its fault. -/
def orBad (o : Option α) : Except Fault α := o.elim (.error .badValue) .ok

/-- The text without underscores, and without its sign; the flag is set for a minus. -/
def unsigned (s : List Char) : Except Fault (Bool × List Char) :=
  let s := s.filter (· != '_')
  if s.isEmpty then .error .noDigits else .ok (Text.splitSign s)

def readTruth (s : String) : Except Fault Yaml :=
  match String.ofList (s.toList.map Char.toLower) with
  | "yes" | "true" | "on" => .ok (.bool true)
  | "no" | "false" | "off" => .ok (.bool false)
  | _ => .error .unknownWord

/-- Whole groups of digits with colons between them, in base sixty. -/
def sexagesimal? (s : List Char) : Option Int := do
  return (← (Kind.splitColons s).mapM Text.readInt?).foldl (fun n d => n * 60 + d) 0

def readInteger (s : String) : Except Fault Yaml := do
  let (negative, ds) ← unsigned s.toList
  let n ← match ds with
    | [] => .error .noDigits
    | ['0'] => .ok 0
    | '0' :: 'b' :: bits => orBad (Text.readBased? 2 'b' bits)
    | '0' :: 'x' :: more => orBad (Text.readBased? 16 'x' more)
    | '0' :: _ => orBad (Text.readBased? 8 'o' ds)
    | _ => orBad (if ds.contains ':' then sexagesimal? ds else Text.readInt? ds)
  return .int (if negative then -n else n)

/-- The sum of groups, the last one first, each with the next power of sixty. -/
def sumGroups (sum : Float) (power : Nat) : List Float → Except Fault Float
  | [] => .ok sum
  | x :: rest => match Decimal.floatOfInt? power with
    | none => .error .outOfRange
    | some base => sumGroups (sum + x * base) (power * 60) rest

def readDouble (s : String) : Except Fault Yaml := do
  let (negative, body) ← unsigned (s.toList.map Char.toLower)
  let signed (x : Float) : Float := if negative then -x else x
  if body == ".nan".toList then return .float Decimal.nan
  else if body == ".inf".toList then return .float (signed Decimal.infinity)
  else if body.contains ':' then
    let groups ← orBad ((Kind.splitColons body).mapM Text.readFloat?)
    return .float (signed (← sumGroups 0.0 1 groups.reverse))
  else return .float (signed (← orBad (Text.readFloat? body)))

def readTime (s : String) : Except Fault Yaml :=
  match Timestamp.read? s.toList with
  | none => .error .noTime
  | some t =>
    if t.time.isNone then (orBad t.date?).map .date else (orBad t.moment?).map .moment

def readBytes (s : String) : Except Fault Yaml :=
  if s.toList.all (·.toNat < 128) then (orMalformed (Text.readBase64? s.toList)).map .bytes
  else .error .malformed

/-- A text as a value of a kind without parts. -/
def ofText (k : Kind) (s : String) : Except Fault Yaml :=
  match k with
  | .null => .ok .null
  | .bool => readTruth s
  | .int => readInteger s
  | .float => readDouble s
  | .time => readTime s
  | .bytes => readBytes s
  | .text => .ok (.text s)
  | _ => .error .malformed

/-! ### Mappings -/

namespace Node

/-- A key of single values is an ordinary text here. -/
def asKey : Node → Node
  | scalar .value s => scalar .text s
  | node => node

mutual

/-- The pairs that a mapping takes over from others, and its own ones. -/
def splitPairs : List (Node × Node) → Except Fault (List (Node × Node) × List (Node × Node))
  | [] => .ok ([], [])
  | (k, v) :: rest => do
    let takenOver ← if k.kind = .merge then v.takenOver else .ok []
    let (others, own) ← splitPairs rest
    return (takenOver ++ others, if k.kind = .merge then own else (k.asKey, v) :: own)

/-- The pairs of a mapping, or of the mappings in a list with later ones first. -/
def takenOver : Node → Except Fault (List (Node × Node))
  | mapping _ pairs => do
    let (others, own) ← splitPairs pairs
    return others ++ own
  | sequence _ items => takenOverAll items
  | scalar _ _ => .error .malformed

def takenOverAll : List Node → Except Fault (List (Node × Node))
  | [] => .ok []
  | mapping _ pairs :: rest => do
    let (others, own) ← splitPairs pairs
    return (← takenOverAll rest) ++ (others ++ own)
  | _ :: _ => .error .malformed

end

mutual

/-- The text of a node. A mapping may have one under the key of single values. -/
def text? : Node → Option String
  | scalar _ s => some s
  | sequence _ _ => none
  | mapping _ pairs => textIn? pairs

def textIn? : List (Node × Node) → Option String
  | [] => none
  | (k, v) :: rest => if k.kind = .value then v.text? else textIn? rest

end

end Node

/-! ### Levels -/

/-- A value, or a fault and how deep it is. -/
abbrev Leveled (α : Type) := Except (Nat × Fault) α

namespace Leveled

/-- Both values. Of two faults the one that is less deep counts, or else the first. -/
def both (a : Leveled α) (b : Leveled β) : Leveled (α × β) :=
  match a, b with
  | .ok x, .ok y => .ok (x, y)
  | .error e, .ok _ => .error e
  | .ok _, .error f => .error f
  | .error e, .error f => .error (if f.1 < e.1 then f else e)

def all (xs : List (Leveled α)) : Leveled (List α) :=
  xs.foldr (fun x rest => (both x rest).map fun (y, ys) => y :: ys) (.ok [])

end Leveled

/-- The value of a node. The parts of a node are one level deeper than itself. -/
def ofNode : (fuel level : Nat) → Node → Leveled Yaml
  | 0, level, _ => .error (level, .malformed)
  | fuel + 1, level, node =>
    let part (n : Node) : Leveled Yaml := ofNode fuel (level + 1) n
    let wrong : Leveled Yaml := .error (level + 1, .malformed)
    let key (n : Node) : Leveled Yaml := if n.kind.isCollection then wrong else part n
    let keyed (pairs : List (Node × Node)) : Leveled (List (Yaml × Yaml)) := do
      let (others, own) ← (Node.splitPairs pairs).mapError ((level + 1, ·))
      let pairs ← Leveled.all ((others ++ own).map fun (k, v) => (key k).both (part v))
      return pairs.foldl (fun before (k, v) => putPair before k v) []
    let entry (n : Node) : Leveled Yaml :=
      match n with
      | .mapping _ [(k, v)] => ((part k).both (part v)).map fun (x, y) => .pair x y
      | _ => wrong
    match node.kind, node with
    | .list, .sequence _ items => (Leveled.all (items.map part)).map .list
    | .pairs, .sequence _ items => (Leveled.all (items.map entry)).map .list
    | .map, .mapping _ pairs => (keyed pairs).map .map
    | .set, .mapping _ pairs => (keyed pairs).map fun pairs => .set (pairs.map Prod.fst)
    | k, node =>
      if k.isCollection then wrong
      else match node.text? with
        | some s => (ofText k s).mapError ((level, ·))
        | none => .error (level, .malformed)

/-- Reads a text that holds at most one document. -/
def read (s : List Char) : Except Fault Yaml := do
  let tokens := tokens s
  match ← Node.ofTokens tokens with
  | none => return .null
  | some node => (ofNode (tokens.length + 2) 0 node).mapError Prod.snd

end InlineImpact.Yaml
