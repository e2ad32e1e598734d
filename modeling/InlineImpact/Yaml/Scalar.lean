import InlineImpact.Yaml.Cursor
import InlineImpact.Yaml.Fault

/-!
Texts in suite files: plain ones, quoted ones, and blocks of lines. A single line break inside of a
text stands for a space, unless the text is a block that keeps its lines.
-/
namespace InlineImpact.Yaml

/-- What a first line break and the ones after it stand for. -/
def foldBreaks (first : Char) (more : List Char) : List Char :=
  if first != '\n' then first :: more else if more.isEmpty then [' '] else more

/-! ### Plain texts -/

/-- The characters that end a plain text inside of brackets. -/
def isBracketMark (c : Char) : Bool := [',', '[', ']', '\x7b', '\x7d'].contains c

/-- The characters of a plain text up to the next gap or indicator. -/
def plainRun (inFlow : Bool) : List Char → List Char
  | [] => []
  | c :: rest =>
    let ends := isGap c || (inFlow && (isBracketMark c || c == '?')) ||
      (c == ':' && (endsHere rest || (inFlow && rest.head?.any isBracketMark)))
    if ends then [] else c :: plainRun inFlow rest

/-- Line breaks and spaces after a first line break; `none` at a document marker. -/
def plainBreaks (breaks : List Char) : (fuel : Nat) → Cursor → Cursor × Option (List Char)
  | 0, p => (p, some breaks.reverse)
  | fuel + 1, p =>
    let p := p.skip (· == ' ')
    match p.lineBreak? with
    | none => (p, some breaks.reverse)
    | some (b, p) => if p.atMarker then (p, none) else plainBreaks (b :: breaks) fuel p

/-- The gap after a run of a plain text: where it ends, whether it holds a line break, and what it
stands for, which is nothing if the text ends here. -/
def plainGap (p : Cursor) : Cursor × Bool × List Char :=
  let (blanks, p) := p.span (· == ' ')
  match p.lineBreak? with
  | none => (p, false, blanks)
  | some (first, p) =>
    if p.atMarker then (p, true, [])
    else match plainBreaks [] (p.rest.length + 1) p with
      | (p, none) => (p, true, [])
      | (p, some more) => (p, true, foldBreaks first more)

/-- A plain text, run by run: where it ends, whether a line break follows it, and its characters.
`indent` is the column that its lines have to reach, and `gap` what stands before the next run. -/
def plainText (inFlow : Bool) (indent : Int) (read gap : List Char) (broken : Bool) :
    (fuel : Nat) → Cursor → Cursor × Bool × List Char
  | 0, p => (p, broken, read)
  | fuel + 1, p =>
    let run := plainRun inFlow p.rest
    if p.head? == some '#' || run.isEmpty then (p, broken, read)
    else
      let (p, broken, next) := plainGap (p.advance run.length)
      let read := read ++ gap ++ run
      if next.isEmpty || p.head? == some '#' || (!inFlow && (p.column : Int) < indent) then
        (p, broken, read)
      else plainText inFlow indent read next broken fuel p

/-! ### Quoted texts -/

def escapes : List (Char × Nat) :=
  [('0', 0), ('a', 7), ('b', 8), ('t', 9), ('\t', 9), ('n', 10), ('v', 11), ('f', 12), ('r', 13),
    ('e', 27), (' ', 32), ('"', 34), ('\\', 92), ('/', 47), ('N', 0x85), ('_', 0xA0), ('L', 0x2028),
    ('P', 0x2029)]

/-- How many digits follow an escape by number. -/
def escapeWidth? : Char → Option Nat
  | 'x' => some 2
  | 'u' => some 4
  | 'U' => some 8
  | _ => none

def hexValue? (c : Char) : Option Nat :=
  if c.isDigit then some (c.toNat - 48)
  else if 'a' ≤ c ∧ c ≤ 'f' then some (c.toNat - 87)
  else if 'A' ≤ c ∧ c ≤ 'F' then some (c.toNat - 55)
  else none

/-- The number that is written in this many hexadecimal digits. -/
def hexNumber? (width : Nat) (s : List Char) : Option Nat := do
  let ds ← (s.take width).mapM hexValue?
  if ds.length < width then none else return ds.foldl (fun n d => 16 * n + d) 0

/-- The second half of a character that is written in two halves. -/
def lowHalf? : List Char → Option Nat
  | '\\' :: 'u' :: rest => (hexNumber? 4 rest).filter fun n => 0xDC00 ≤ n && n < 0xE000
  | _ => none

/-- The character of a number, and the place after it. Two halves make one character, and a half on
its own is replaced. -/
def numbered (n : Nat) (p : Cursor) : Except Fault (Cursor × List Char) :=
  if 0x80000000 ≤ n then .error .outOfRange
  else if 0x110000 ≤ n then .error .badValue
  else match (lowHalf? p.rest).filter fun _ => 0xD800 ≤ n && n < 0xDC00 with
    | some low => .ok (p.advance 6, [Char.ofNat (0x10000 + (n - 0xD800) * 0x400 + (low - 0xDC00))])
    | none => .ok (p, [if n.isValidChar then Char.ofNat n else Char.ofNat 0xFFFD])

/-- The lines after a break inside quotes: their breaks, up to the first other character. -/
def quotedBreaks (breaks : List Char) : (fuel : Nat) → Cursor → Option (Cursor × List Char)
  | 0, _ => none
  | fuel + 1, p =>
    if p.atMarker then none
    else
      let p := p.skip isBlank
      match p.lineBreak? with
      | some (b, p) => quotedBreaks (b :: breaks) fuel p
      | none => some (p, breaks.reverse)

/-- The characters that an escape stands for; the place is after the backslash. -/
def escaped (p : Cursor) : Except Fault (Cursor × List Char) :=
  match p.head? with
  | none => .error .malformed
  | some c =>
    match escapes.lookup c, escapeWidth? c with
    | some n, _ => .ok (p.step, [Char.ofNat n])
    | none, some width =>
      match hexNumber? width (p.rest.drop 1) with
      | some n => numbered n (p.advance (width + 1))
      | none => .error .malformed
    | none, none =>
      match p.lineBreak?.bind fun (_, p) => quotedBreaks [] (p.rest.length + 1) p with
      | some r => .ok r
      | none => .error .malformed

/-- A quoted text after its opening quote; `read` holds what came before, in reverse. -/
def quotedText (quote : Char) (read : List Char) : (fuel : Nat) → Cursor →
    Except Fault (Cursor × List Char)
  | 0, _ => .error .malformed
  | fuel + 1, p =>
    match p.head? with
    | none => .error .malformed
    | some c =>
      if c == quote then
        if quote == '\'' && (p.rest.drop 1).head? == some '\'' then
          quotedText quote ('\'' :: read) fuel (p.advance 2)
        else .ok (p.step, read.reverse)
      else if c == '\\' && quote == '"' then do
        let (p, text) ← escaped p.step
        quotedText quote (text.reverse ++ read) fuel p
      else if isGap c then
        let (blanks, p) := p.span isBlank
        match p.lineBreak? with
        | none => quotedText quote (blanks.reverse ++ read) fuel p
        | some (first, p) =>
          match quotedBreaks [] (p.rest.length + 1) p with
          | none => .error .malformed
          | some (p, more) => quotedText quote ((foldBreaks first more).reverse ++ read) fuel p
      else quotedText quote (c :: read) fuel p.step

/-! ### Blocks of lines -/

/-- Which of the line breaks at the end of a block count. -/
inductive Ending where
  | noBreak
  | oneBreak
  | allBreaks
  deriving DecidableEq, Repr

def ending? (p : Cursor) : Option (Ending × Cursor) :=
  match p.head? with
  | some '+' => some (.allBreaks, p.step)
  | some '-' => some (.noBreak, p.step)
  | _ => none

/-- How much further in than its surroundings a block is. -/
def width? (p : Cursor) : Option (Nat × Cursor) :=
  (p.head?.filter Char.isDigit).map fun c => (c.toNat - 48, p.step)

/-- The line that opens a block, after its indicator. The two settings may come in any order. -/
def blockHeader? (p : Cursor) : Option (Ending × Option Nat × Cursor) := do
  let (before, p) := match ending? p with
    | some (e, p) => (some e, p)
    | none => (none, p)
  let (width, p) := match width? p with
    | some (n, p) => (some n, p)
    | none => (none, p)
  let (after, p) := match before, ending? p with
    | none, some (e, p) => (some e, p)
    | _, _ => (none, p)
  if width = some 0 || !p.atWordEnd then none
  else return ((before.or after).getD .oneBreak, width, ← p.endLine?)

/-- Past spaces, but not past this column. -/
def Cursor.skipTo (p : Cursor) (column : Nat) : Cursor :=
  p.advance (min (column - p.column) (p.rest.takeWhile (· == ' ')).length)

/-- The breaks of empty lines, and the place after them at this column or before it. -/
def blockBreaks (indent : Nat) (breaks : List Char) : (fuel : Nat) → Cursor → List Char × Cursor
  | 0, p => (breaks.reverse, p)
  | fuel + 1, p =>
    let p := p.skipTo indent
    match p.lineBreak? with
    | some (b, p) => blockBreaks indent (b :: breaks) fuel p
    | none => (breaks.reverse, p)

/-- The empty lines in front of a block, and the widest indentation up to its first character. -/
def blockLead (widest : Nat) (breaks : List Char) : (fuel : Nat) → Cursor → Nat × List Char × Cursor
  | 0, p => (widest, breaks.reverse, p)
  | fuel + 1, p =>
    let p := p.skip (· == ' ')
    let widest := max widest p.column
    match p.lineBreak? with
    | some (b, p) => blockLead widest (b :: breaks) fuel p
    | none => (widest, breaks.reverse, p)

/-- The lines of a block: what is read, the last break, the breaks of empty lines after it, and the
place where the block ends. -/
def blockLines (folded : Bool) (indent : Nat) (read last breaks : List Char) :
    (fuel : Nat) → Cursor → List Char × List Char × List Char × Cursor
  | 0, p => (read, last, breaks, p)
  | fuel + 1, p =>
    if p.column ≠ indent || p.rest.isEmpty then (read, last, breaks, p)
    else
      let (line, q) := p.span (!isBreak ·)
      let (last, q) := match q.lineBreak? with
        | some (b, q) => ([b], q)
        | none => ([], q)
      let (next, q) := blockBreaks indent [] (q.rest.length + 1) q
      let read := read ++ breaks ++ line
      if q.column ≠ indent || q.rest.isEmpty then (read, last, next, q)
      else
        let joined := folded && last == ['\n'] && !p.head?.any isBlank && !q.head?.any isBlank
        let glue := if !joined then last else if next.isEmpty then [' '] else []
        blockLines folded indent (read ++ glue) last next fuel q

/-- A block of lines after its indicator, in surroundings that are indented to this column. -/
def blockText (folded : Bool) (outer : Int) (p : Cursor) : Except Fault (Cursor × List Char) :=
  match blockHeader? p with
  | none => .error .malformed
  | some (ending, width, p) =>
    let least := (max (outer + 1) 1).toNat
    let fuel := p.rest.length + 1
    let (indent, breaks, p) := match width with
      | some n => (least + n - 1, blockBreaks (least + n - 1) [] fuel p)
      | none =>
        let (widest, rest) := blockLead 0 [] fuel p
        (max least widest, rest)
    let (read, last, breaks, p) := blockLines folded indent [] [] breaks fuel p
    .ok (p, read ++ (if ending = .noBreak then [] else last) ++
      (if ending = .allBreaks then breaks else []))

end InlineImpact.Yaml
