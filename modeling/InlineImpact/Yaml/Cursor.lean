/-!
Places in the text of a suite file, with their line and column, and the steps from one to the next.
-/
namespace InlineImpact.Yaml

def isBreak (c : Char) : Bool :=
  c == '\n' || c == '\r' || c.toNat == 0x85 || c.toNat == 0x2028 || c.toNat == 0x2029

def isBlank (c : Char) : Bool := c == ' ' || c == '\t'

def isGap (c : Char) : Bool := isBlank c || isBreak c

/-- The characters of names. -/
def isNameChar (c : Char) : Bool := c.isAlphanum || c == '-' || c == '_'

/-- The text ends here, or a gap follows. -/
def endsHere (s : List Char) : Bool := s.head?.elim true isGap

/-- The characters that a file may hold. -/
def isAllowed (c : Char) : Bool :=
  let n := c.toNat
  n == 9 || n == 10 || n == 13 || (32 ≤ n && n ≤ 126) || n == 0x85 || (0xA0 ≤ n && n ≤ 0xD7FF) ||
    (0xE000 ≤ n && n ≤ 0xFFFD) || 0x10000 ≤ n

/-- A place in the text. -/
structure Cursor where
  rest : List Char
  index : Nat := 0
  line : Nat := 0
  column : Nat := 0

namespace Cursor

/-- The first place of a text. A mark of the byte order is skipped. -/
def start (s : List Char) : Cursor :=
  match s with
  | [] => { rest := [] }
  | c :: rest => if c.toNat = 0xFEFF then { rest, index := 1 } else { rest := s }

def step (p : Cursor) : Cursor :=
  match p.rest with
  | [] => p
  | c :: rest =>
    if isBreak c && !(c == '\r' && rest.head? == some '\n') then ⟨rest, p.index + 1, p.line + 1, 0⟩
    else ⟨rest, p.index + 1, p.line, if c.toNat = 0xFEFF then p.column else p.column + 1⟩

def advance (p : Cursor) : Nat → Cursor
  | 0 => p
  | n + 1 => p.step.advance n

def head? (p : Cursor) : Option Char := p.rest.head?

/-- The characters with a property at the front, and the place after them. -/
def span (p : Cursor) (q : Char → Bool) : List Char × Cursor :=
  let run := p.rest.takeWhile q
  (run, p.advance run.length)

/-- Past all characters with a property. -/
def skip (p : Cursor) (q : Char → Bool) : Cursor := (p.span q).2

/-- Past one character, which has to be this one. -/
def past? (p : Cursor) (c : Char) : Option Cursor := if p.head? == some c then some p.step else none

/-- Past a line break, and the break as it counts in a text; `none` if there is none here. -/
def lineBreak? (p : Cursor) : Option (Char × Cursor) :=
  match p.rest with
  | '\r' :: '\n' :: _ => some ('\n', p.advance 2)
  | c :: _ =>
    if !isBreak c then none
    else some (if c.toNat == 0x2028 || c.toNat == 0x2029 then c else '\n', p.step)
  | [] => none

/-- Past spaces and a comment. -/
def skipComment (p : Cursor) : Cursor :=
  let p := p.skip (· == ' ')
  if p.head? == some '#' then p.skip (!isBreak ·) else p

/-- Past the rest of a line that holds nothing but a comment. -/
def endLine? (p : Cursor) : Option Cursor :=
  let p := p.skipComment
  match p.lineBreak? with
  | some (_, p) => some p
  | none => if p.rest.isEmpty then some p else none

/-- A space, a line break or the end of the text is here. -/
def atWordEnd (p : Cursor) : Bool := p.head?.elim true fun c => c == ' ' || isBreak c

/-- A line that starts or ends a document is here. -/
def atMarker (p : Cursor) : Bool :=
  (['-', '-', '-'].isPrefixOf p.rest || ['.', '.', '.'].isPrefixOf p.rest) &&
    endsHere (p.rest.drop 3)

end Cursor

end InlineImpact.Yaml
