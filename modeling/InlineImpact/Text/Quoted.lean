import InlineImpact.Text.Printable

/-!
Quoted text for messages and numbers in base sixteen. A text is put between single quotes, or between
double quotes if it holds a single quote and no double one; what has no printed form is escaped by
its code point.
-/
namespace InlineImpact.Text

/-- A natural in base sixteen, lower case, without leading zeros. -/
def hexDigits (n : Nat) : List Char := Nat.toDigits 16 n

/-- An integer in base sixteen, filled with zeros after its sign to the given width. The sign counts. -/
def hexWide (width : Nat) (n : Int) : List Char :=
  let ds := hexDigits n.natAbs
  if n < 0 then '-' :: (List.replicate (width - 1 - ds.length) '0' ++ ds)
  else List.replicate (width - ds.length) '0' ++ ds

def hex8 (n : Int) : String := String.ofList (hexWide 8 n)

/-- A character inside quotes. -/
def escapeIn (quote : Char) (c : Char) : List Char :=
  if c == quote || c == '\\' then ['\\', c]
  else if c == '\t' then ['\\', 't']
  else if c == '\n' then ['\\', 'n']
  else if c == '\r' then ['\\', 'r']
  else if isPrintable c then [c]
  else if c.toNat < 0x100 then '\\' :: 'x' :: hexWide 2 c.toNat
  else if c.toNat < 0x10000 then '\\' :: 'u' :: hexWide 4 c.toNat
  else '\\' :: 'U' :: hexWide 8 c.toNat

def quoteFor (s : List Char) : Char :=
  if s.contains '\'' && !s.contains '"' then '"' else '\''

def quoted (s : String) : String :=
  let cs := s.toList
  let q := quoteFor cs
  String.ofList (q :: (cs.flatMap (escapeIn q) ++ [q]))

end InlineImpact.Text
