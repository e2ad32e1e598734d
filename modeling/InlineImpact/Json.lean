import InlineImpact.Decimal.Shortest
import InlineImpact.Keyed
import InlineImpact.Text.Quoted

/-!
Values of the data format that captures, schemas and reports are written in, and their written form.
Written text is plain ASCII: every other character is escaped by its sixteen-bit units.
-/
namespace InlineImpact

inductive Json where
  | null
  | bool (b : Bool)
  | int (n : Int)
  | float (x : Float)
  | string (s : String)
  | array (items : List Json)
  | object (fields : List (String × Json))
  deriving Inhabited

namespace Json

/-- The value of a field; of fields with one name the last counts. -/
def field? (name : String) : Json → Option Json
  | object fields => (fields.reverse.find? (·.1 = name)).map Prod.snd
  | _ => none

/-- A sixteen-bit unit, escaped. -/
def unitEscape (n : Nat) : List Char := '\\' :: 'u' :: Text.hexWide 4 n

def escapeChar (c : Char) : List Char :=
  let n := c.toNat
  if c == '"' then ['\\', '"']
  else if c == '\\' then ['\\', '\\']
  else if c == '\n' then ['\\', 'n']
  else if c == '\r' then ['\\', 'r']
  else if c == '\t' then ['\\', 't']
  else if n == 8 then ['\\', 'b']
  else if n == 12 then ['\\', 'f']
  else if 32 ≤ n ∧ n < 127 then [c]
  else if n < 0x10000 then unitEscape n
  else unitEscape (0xD800 + (n - 0x10000) / 0x400) ++ unitEscape (0xDC00 + (n - 0x10000) % 0x400)

def writeString (s : String) : String :=
  String.ofList ('"' :: (s.toList.flatMap escapeChar ++ ['"']))

/-- Doubles that are no numbers have names of their own. -/
def writeFloat (x : Float) : String :=
  if x.isNaN then "NaN"
  else if x.isFinite then Decimal.text x
  else if x < 0.0 then "-Infinity"
  else "Infinity"

/-- Where line breaks and blanks go. -/
structure Style where
  /-- What stands before an item at some depth. -/
  newline : Nat → String
  afterColon : String

/-- All on one line, without blanks. -/
def compact : Style := ⟨fun _ => "", ""⟩

/-- An item per line, two blanks further in for each level. -/
def indented : Style := ⟨fun depth => "\n" ++ String.ofList (List.replicate (2 * depth) ' '), " "⟩

mutual

def writeAt (style : Style) (depth : Nat) : Json → String
  | null => "null"
  | bool b => if b then "true" else "false"
  | int n => toString n
  | float x => writeFloat x
  | string s => writeString s
  | array [] => "[]"
  | array (v :: vs) =>
    "[" ++ style.newline (depth + 1) ++ writeAt style (depth + 1) v
      ++ writeItems style (depth + 1) vs ++ style.newline depth ++ "]"
  | object [] => "\x7b\x7d"
  | object ((k, v) :: fs) =>
    "\x7b" ++ style.newline (depth + 1) ++ writeString k ++ ":" ++ style.afterColon
      ++ writeAt style (depth + 1) v ++ writeFields style (depth + 1) fs
      ++ style.newline depth ++ "\x7d"

def writeItems (style : Style) (depth : Nat) : List Json → String
  | [] => ""
  | v :: vs => "," ++ style.newline depth ++ writeAt style depth v ++ writeItems style depth vs

def writeFields (style : Style) (depth : Nat) : List (String × Json) → String
  | [] => ""
  | (k, v) :: fs =>
    "," ++ style.newline depth ++ writeString k ++ ":" ++ style.afterColon
      ++ writeAt style depth v ++ writeFields style depth fs

end

def write (style : Style) (v : Json) : String := writeAt style 0 v

end Json

end InlineImpact
