import InlineImpact.Yaml.Timestamp

/-!
Kinds of values. A plain text that is spelled like a truth value, a number, a point of time or nothing
is of that kind, and a tag gives a kind by name. Sexagesimal numbers and underscores between digits
are part of the format.
-/
namespace InlineImpact.Yaml

inductive Kind where
  | null
  | bool
  | int
  | float
  | time
  | bytes
  | text
  | list
  | map
  | set
  /-- Pairs in a list, written as mappings of one pair each. -/
  | pairs
  /-- The key of what a mapping takes over from others. -/
  | merge
  /-- The key of what a mapping comes to as a single value. -/
  | value
  | unknown
  deriving DecidableEq, Repr

namespace Kind

def truths : List String := ["yes", "Yes", "YES", "true", "True", "TRUE", "on", "On", "ON"]

def falsehoods : List String := ["no", "No", "NO", "false", "False", "FALSE", "off", "Off", "OFF"]

def nulls : List String := ["", "~", "null", "Null", "NULL"]

def isDigitOrMark (c : Char) : Bool := c.isDigit || c == '_'

/-- Groups of one or two digits, the first of two below six. -/
def isSixty : List Char → Bool
  | [a] => a.isDigit
  | [a, b] => '0' ≤ a && a ≤ '5' && b.isDigit
  | _ => false

def splitColons (s : List Char) : List (List Char) :=
  s.foldr (fun c groups => if c == ':' then [] :: groups else match groups with
    | [] => [[c]]
    | g :: rest => (c :: g) :: rest) [[]]

/-- A first group of digits that satisfies `p` and at least one group below sixty. -/
def isSexagesimal (p : Char → Bool) (s : List Char) : Bool :=
  match splitColons s with
  | (c :: first) :: rest =>
    p c && first.all isDigitOrMark && !rest.isEmpty && rest.all isSixty
  | _ => false

/-- An integer without its sign: binary, octal, hexadecimal, decimal or sexagesimal. -/
def isInteger (s : List Char) : Bool :=
  match s with
  | [] => false
  | ['0'] => true
  | '0' :: 'b' :: ds => !ds.isEmpty && ds.all fun c => c == '0' || c == '1' || c == '_'
  | '0' :: 'x' :: ds => !ds.isEmpty && ds.all fun c => (Text.digitIn? 16 c).isSome || c == '_'
  | '0' :: ds => ds.all fun c => (Text.digitIn? 8 c).isSome || c == '_'
  | c :: ds => (c.isDigit && ds.all isDigitOrMark) || isSexagesimal (fun c => c.isDigit && c ≠ '0') s

/-- An exponent always has a sign. -/
def isExponent : List Char → Bool
  | [] => true
  | e :: sign :: ds =>
    (e == 'e' || e == 'E') && (sign == '+' || sign == '-') && !ds.isEmpty && ds.all Char.isDigit
  | _ => false

/-- A decimal numeral with a point. A sign stands only in front of a digit. -/
def isDecimal (signed : Bool) (s : List Char) : Bool :=
  match s with
  | '.' :: c :: rest => !signed && c.isDigit && isExponent (rest.dropWhile isDigitOrMark)
  | c :: rest =>
    c.isDigit && match rest.dropWhile isDigitOrMark with
      | '.' :: more => isExponent (more.dropWhile isDigitOrMark)
      | _ => false
  | [] => false

/-- Sexagesimal groups, the last with a point after it. -/
def isSexagesimalDecimal (s : List Char) : Bool :=
  match s.dropWhile (· != '.') with
  | '.' :: fraction =>
    isSexagesimal Char.isDigit (s.takeWhile (· != '.')) && fraction.all isDigitOrMark
  | _ => false

def isFloat (s : List Char) : Bool :=
  let body := (Text.splitSign s).2
  let signed := body.length < s.length
  isDecimal signed body || isSexagesimalDecimal body ||
    [".inf", ".Inf", ".INF"].contains (String.ofList body) ||
    (!signed && [".nan", ".NaN", ".NAN"].contains (String.ofList body))

/-- The kind of a plain text. -/
def ofPlain (s : String) : Kind :=
  let cs := s.toList
  if truths.contains s || falsehoods.contains s then bool
  else if nulls.contains s then null
  else if s == "<<" then merge
  else if s == "=" then value
  else if isFloat cs then float
  else if isInteger (Text.splitSign cs).2 then int
  else if Timestamp.isSpelled cs then time
  else text

/-- The tags of the kinds come after this. -/
def tagBase : String := "tag:yaml.org,2002:"

def tags : List (String × Kind) :=
  [("null", null), ("bool", bool), ("int", int), ("float", float), ("binary", bytes),
    ("timestamp", time), ("str", text), ("seq", list), ("map", map), ("set", set), ("omap", pairs),
    ("pairs", pairs), ("merge", merge), ("value", value)]

def ofTag (tag : String) : Kind :=
  ((tags.find? fun (name, _) => tagBase ++ name == tag).map Prod.snd).getD unknown

/-- Values of these kinds have parts, and cannot be keys. -/
def isCollection (k : Kind) : Bool := [list, map, set, pairs].contains k

end Kind

end InlineImpact.Yaml
