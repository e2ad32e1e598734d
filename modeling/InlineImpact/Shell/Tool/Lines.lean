import InlineImpact.Shell.Pattern
import InlineImpact.Shell.Tool
import InlineImpact.Text.Numeral

/-!
Tools that work on the lines and the characters of files or of the input.
-/
namespace InlineImpact.Shell.Tool

def cat : Tool := fun args st =>
  readAll (plainWording "cat") 1 st (orInput (splitOptions args).2)

def grep : Tool := fun args st =>
  match splitOptions args with
  | (_, []) => refuse st 2 "Usage: grep [OPTION]... PATTERNS [FILE]..."
  | (options, p :: files) =>
    let r := readAll (plainWording "grep") 2 st (orInput files)
    let fits (line : List Char) : Bool :=
      let found := if options.contains 'F' then Text.contains p.toList line
        else Piece.occurs true (Piece.read true p.toList) line
      found != options.contains 'v'
    let found := (linesOf r.out).filter fits
    let shown := if options.contains 'q' then ByteArray.empty
      else if options.contains 'c' then (toString found.length ++ "\n").toUTF8
      else ofLines found
    { r with out := shown
             status := if r.status ≠ 0 then r.status else if found.isEmpty then 1 else 0 }

def openWording (name path : String) (e : StorageError) : String :=
  name ++ ": cannot open '" ++ path ++ "' for reading: " ++ e.reason

/-- How much of a file is wanted: a number of lines or of bytes, perhaps counted from the front. -/
structure Extent where
  count : Nat := 10
  inBytes : Bool := false
  fromFront : Bool := false

def Extent.ofWord (inBytes : Bool) (w : String) : Option Extent :=
  let fromFront := w.startsWith "+"
  (Text.readInt? (if fromFront then w.toList.drop 1 else w.toList)).map fun n =>
    ⟨n.natAbs, inBytes, fromFront⟩

/-- The extent that the options ask for, and the files. -/
def extent : List String → Option (Extent × List String)
  | "-n" :: w :: files => (Extent.ofWord false w).map (·, files)
  | "-c" :: w :: files => (Extent.ofWord true w).map (·, files)
  | w :: files =>
    if w.startsWith "-n" then (Extent.ofWord false (String.ofList (w.toList.drop 2))).map (·, files)
    else if w.startsWith "-c" then (Extent.ofWord true (String.ofList (w.toList.drop 2))).map (·, files)
    else if w.startsWith "-" && w ≠ "-" then
      (Extent.ofWord false (String.ofList (w.toList.drop 1))).map (·, files)
    else some ({}, w :: files)
  | [] => some ({}, [])

/-- The bytes up to and after this many line ends. -/
def cutLines (n : Nat) (bytes : List UInt8) : List UInt8 × List UInt8 :=
  go n [] bytes
where
  go : Nat → List UInt8 → List UInt8 → List UInt8 × List UInt8
    | 0, before, rest => (before.reverse, rest)
    | _ + 1, before, [] => (before.reverse, [])
    | n + 1, before, b :: rest => go (if b = 10 then n else n + 1) (b :: before) rest
  termination_by _ _ rest => rest.length

def part (name : String) (keep : Extent → List UInt8 → List UInt8) : Tool := fun args st =>
  match extent args with
  | none => refuse st 1 (name ++ ": invalid number")
  | some (e, files) =>
    let r := readAll (openWording name) 1 st (orInput files)
    { r with out := ByteArray.mk (keep e r.out.toList).toArray }

def head : Tool := part "head" fun e bytes =>
  if e.inBytes then bytes.take e.count else (cutLines e.count bytes).1

def tail : Tool := part "tail" fun e bytes =>
  let lines := bytes.count 10 + (if bytes.getLast?.any (· ≠ 10) then 1 else 0)
  if e.fromFront then
    if e.inBytes then bytes.drop (e.count - 1) else (cutLines (e.count - 1) bytes).2
  else if e.inBytes then bytes.drop (bytes.length - e.count)
  else (cutLines (lines - e.count) bytes).2

def isSpace (b : UInt8) : Bool := b = 32 || (9 ≤ b && b ≤ 13)

def countWords (inWord : Bool) : List UInt8 → Nat
  | [] => 0
  | b :: rest =>
    if isSpace b then countWords false rest
    else (if inWord then 0 else 1) + countWords true rest

/-- Counts lines, words and bytes. A single count of the input stands alone. -/
def wc : Tool := fun args st =>
  let (options, files) := splitOptions args
  let r := readAll (plainWording "wc") 1 st (orInput files)
  let bytes := r.out.toList
  let wanted (c : Char) : Bool := options.isEmpty || options.contains c
  let counts := (if wanted 'l' then [bytes.count 10] else []) ++
    (if wanted 'w' then [countWords false bytes] else []) ++ (if wanted 'c' then [bytes.length] else [])
  let width := if counts.length = 1 then 1 else if files.isEmpty then 7 else (toString bytes.length).length
  let shown := " ".intercalate (counts.map fun (n : Nat) =>
    let s := toString n
    String.ofList (List.replicate (width - s.length) ' ') ++ s)
  let name := match files with
    | [f] => if r.status = 0 then " " ++ f else ""
    | _ => ""
  if r.status ≠ 0 then { r with out := ByteArray.empty } else { r with out := (shown ++ name ++ "\n").toUTF8 }

/-- The characters of a set, with ranges and escapes. -/
def characterSet : List Char → List Char
  | [] => []
  | '\\' :: c :: rest =>
    (match c with
      | 'n' => '\n'
      | 't' => '\t'
      | 'r' => '\r'
      | c => c) :: characterSet rest
  | a :: '-' :: b :: rest =>
    (List.range (b.toNat + 1 - a.toNat)).map (fun n => Char.ofNat (a.toNat + n)) ++ characterSet rest
  | c :: rest => c :: characterSet rest

/-- Changes characters of one set into those of another, or drops them. -/
def tr : Tool := fun args st =>
  let text := (textOf st.input).toList
  let done (s : List Char) : Report :=
    { succeed st (String.ofList s) with input := some ByteArray.empty }
  match args with
  | ["-d", set] => done (text.filter fun c => !(characterSet set.toList).contains c)
  | [old, new] =>
    let old := characterSet old.toList
    let new := characterSet new.toList
    let last := new.getLast?.getD ' '
    done (text.map fun c => match old.idxOf? c with
      | some i => new.getD i last
      | none => c)
  | _ => refuse st 1 "tr: missing operand"

/-- The numbers of a list like `1,3-5`; an open range goes on to `last`. -/
def positions (last : Nat) (s : String) : List Nat :=
  (s.splitOn ",").flatMap fun item =>
    match item.splitOn "-" with
    | [n] => (n.toNat?).toList
    | [a, b] =>
      let a := (a.toNat?).getD 1
      (List.range ((b.toNat?).getD last + 1 - a)).map (· + a)
    | _ => []

def cutFields (mark : Char) (list : String) (line : List Char) : List Char :=
  if !line.contains mark then line
  else
    let pieces := Text.splitAtEach mark line
    let wanted := positions pieces.length list
    let kept := pieces.zipIdx.filterMap fun (p, i) => if wanted.contains (i + 1) then some p else none
    [mark].intercalate kept

def cutCharacters (list : String) (line : List Char) : List Char :=
  let wanted := positions line.length list
  line.zipIdx.filterMap fun (c, i) => if wanted.contains (i + 1) then some c else none

/-- Takes fields or characters of every line; `mark` separates fields. -/
def cutWith (mark : Char) (list : Option (Bool × String)) (st : State) : List String → Report
  | "-d" :: m :: rest => cutWith (m.toList.headD '\t') list st rest
  | "-f" :: l :: rest => cutWith mark (some (true, l)) st rest
  | "-c" :: l :: rest => cutWith mark (some (false, l)) st rest
  | w :: rest =>
    let value := String.ofList (w.toList.drop 2)
    if w.startsWith "-d" then cutWith (value.toList.headD '\t') list st rest
    else if w.startsWith "-f" then cutWith mark (some (true, value)) st rest
    else if w.startsWith "-c" then cutWith mark (some (false, value)) st rest
    else finish (w :: rest)
  | [] => finish []
where
  finish (files : List String) : Report :=
    let r := readAll (plainWording "cut") 1 st (orInput files)
    let lines := linesOf r.out
    match list with
    | some (true, l) => { r with out := ofLines (lines.map (cutFields mark l)) }
    | some (false, l) => { r with out := ofLines (lines.map (cutCharacters l)) }
    | none => refuse st 1 "cut: you must specify a list of bytes, characters, or fields"

def cut : Tool := fun args st => cutWith '\t' none st args

/-- The number at the front of a line, for an order by number. -/
def leadingNumber (line : List Char) : Int :=
  let (negative, body) := Text.splitSign (line.dropWhile (· == ' '))
  Text.withSign negative (Text.ofDigits 10 ((body.takeWhile Char.isDigit).filterMap Text.asciiDigit?))

/-- Equal lines next to each other, as one line each with their number. -/
def runs : List (List Char) → List (Nat × List Char)
  | [] => []
  | l :: rest =>
    match runs rest with
    | (n, m) :: more => if l == m then (n + 1, m) :: more else (1, l) :: (n, m) :: more
    | [] => [(1, l)]

def sort : Tool := fun args st =>
  let (options, files) := splitOptions args
  let r := readAll (fun path e => "sort: cannot read: " ++ path ++ ": " ++ e.reason) 2 st (orInput files)
  let byText (a b : List Char) : Bool := !(String.ofList b < String.ofList a)
  let le (a b : List Char) : Bool :=
    if options.contains 'n' && leadingNumber a ≠ leadingNumber b then leadingNumber a < leadingNumber b
    else byText a b
  let lines := (linesOf r.out).mergeSort fun a b => if options.contains 'r' then le b a else le a b
  { r with out := ofLines (if options.contains 'u' then (runs lines).map Prod.snd else lines) }

def uniq : Tool := fun args st =>
  let (options, files) := splitOptions args
  let r := readAll (plainWording "uniq") 1 st (orInput files)
  let numbered (n : Nat) : List Char :=
    let s := (toString n).toList
    List.replicate (7 - s.length) ' ' ++ s ++ [' ']
  { r with out := ofLines ((runs (linesOf r.out)).map fun (n, l) =>
      if options.contains 'c' then numbered n ++ l else l) }

/-- Copies the input to files, too. -/
def tee : Tool := fun args st =>
  let (options, files) := splitOptions args
  let put (ws : Workspace) (path : String) : Workspace :=
    ((if options.contains 'a' then ws.append path st.input else ws.write path st.input).toOption).getD ws
  { out := st.input, workspace := files.foldl put st.workspace, input := some ByteArray.empty }

/-- Whole numbers from the first to the last, with a step. -/
def seq : Tool := fun args st =>
  match args.mapM fun a => Text.readInt? a.toList with
  | some [last] => succeed st (rows 1 1 last)
  | some [first, last] => succeed st (rows first 1 last)
  | some [first, step, last] => succeed st (rows first step last)
  | _ => refuse st 1 "seq: invalid floating point argument"
where
  rows (first step last : Int) : String :=
    let count := if step = 0 then 0 else ((last - first).fdiv step + 1).toNat
    "".intercalate ((List.range count).map fun (n : Nat) => toString (first + step * n) ++ "\n")

end InlineImpact.Shell.Tool
