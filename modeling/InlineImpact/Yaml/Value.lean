import InlineImpact.Calendar
import InlineImpact.Decimal.Shortest
import InlineImpact.Text.Quoted

/-!
Values of suite files and their texts. Keys of a mapping are the same if they are equal as numbers,
where a truth value counts as one or zero, or as values of one other kind.
-/
namespace InlineImpact

inductive Yaml where
  | null
  | bool (b : Bool)
  | int (n : Int)
  | float (x : Float)
  | date (d : Date)
  | moment (m : Moment)
  | bytes (bs : List UInt8)
  | text (s : String)
  | pair (k v : Yaml)
  | list (items : List Yaml)
  | set (items : List Yaml)
  | map (pairs : List (Yaml × Yaml))

namespace Yaml

instance : Inhabited Yaml := ⟨null⟩

/-! ### Keys -/

/-- What a key comes to as a number: an exact quotient, or a double that is no quotient. -/
inductive Magnitude where
  | ratio (num : Int) (den : Nat)
  | endless (x : Float)

def magnitude? : Yaml → Option Magnitude
  | bool b => some (.ratio (if b then 1 else 0) 1)
  | int n => some (.ratio n 1)
  | float x => match Decimal.Binary.ofFloat? x with
    | none => some (.endless x)
    | some b =>
      let (num, den) := b.ratio
      some (.ratio (if b.negative then -(num : Int) else num) den)
  | _ => none

def Magnitude.same : Magnitude → Magnitude → Bool
  | ratio a b, ratio c d => a * d == c * b
  | endless x, endless y => x == y || (x.isNaN && y.isNaN)
  | _, _ => false

/-- Two keys are the same. -/
def sameKey (a b : Yaml) : Bool :=
  match a.magnitude?, b.magnitude? with
  | some m, some n => m.same n
  | _, _ =>
    match a, b with
    | null, null => true
    | text s, text t => s == t
    | bytes s, bytes t => s == t
    | date d, date e => d == e
    | moment m, moment n => m.same n
    | _, _ => false

/-- The first spelling of a key stays, and the last value. -/
def putPair (pairs : List (Yaml × Yaml)) (k v : Yaml) : List (Yaml × Yaml) :=
  if pairs.any fun (j, _) => sameKey j k then
    pairs.map fun (j, w) => if sameKey j k then (j, v) else (j, w)
  else pairs ++ [(k, v)]

/-- The value with this text as its key. -/
def field? (name : String) : Yaml → Option Yaml
  | map pairs => (pairs.find? fun (k, _) => sameKey k (.text name)).map Prod.snd
  | _ => none

/-- Nothing, zero, and everything empty. -/
def isFalsy : Yaml → Bool
  | null => true
  | bool b => !b
  | int n => n = 0
  | float x => x == 0.0
  | bytes bs => bs.isEmpty
  | text s => s.isEmpty
  | list items | set items => items.isEmpty
  | map pairs => pairs.isEmpty
  | date _ | moment _ | pair _ _ => false

/-! ### Texts -/

/-- A byte in quotes: as a character if it is one in the printable part of ASCII, else by number. -/
def byteText (quote : Char) (b : UInt8) : List Char :=
  let c := Char.ofNat b.toNat
  if c == quote || c == '\\' then ['\\', c]
  else if c == '\t' then ['\\', 't']
  else if c == '\n' then ['\\', 'n']
  else if c == '\r' then ['\\', 'r']
  else if 32 ≤ b.toNat ∧ b.toNat < 127 then [c]
  else
    let digit (n : Nat) : Char := Char.ofNat (if n < 10 then n + 48 else n + 87)
    ['\\', 'x', digit (b.toNat / 16), digit (b.toNat % 16)]

/-- Bytes stand in single quotes, or in double quotes if only those are not among them. -/
def bytesListing (bs : List UInt8) : String :=
  let quote := if bs.contains 39 && !bs.contains 34 then '"' else '\''
  "b" ++ String.ofList (quote :: bs.flatMap (byteText quote) ++ [quote])

mutual

/-- A value inside of another one: texts are quoted. -/
def listing : Yaml → String
  | null => "None"
  | bool b => if b then "True" else "False"
  | int n => toString n
  | float x => Decimal.text x
  | date d => d.listing
  | moment m => m.listing
  | bytes bs => bytesListing bs
  | text s => Text.quoted s
  | pair k v => "(" ++ listing k ++ ", " ++ listing v ++ ")"
  | list [] => "[]"
  | list (v :: vs) => "[" ++ listing v ++ listItems vs ++ "]"
  | set [] => "set()"
  | set (v :: vs) => "\x7b" ++ listing v ++ listItems vs ++ "\x7d"
  | map [] => "\x7b\x7d"
  | map ((k, v) :: ps) => "\x7b" ++ listing k ++ ": " ++ listing v ++ listPairs ps ++ "\x7d"

def listItems : List Yaml → String
  | [] => ""
  | v :: vs => ", " ++ listing v ++ listItems vs

def listPairs : List (Yaml × Yaml) → String
  | [] => ""
  | (k, v) :: ps => ", " ++ listing k ++ ": " ++ listing v ++ listPairs ps

end

/-- A value as a text; texts and points of time stand for themselves. -/
def display : Yaml → String
  | text s => s
  | date d => d.text
  | moment m => m.text
  | v => v.listing

end Yaml

end InlineImpact
