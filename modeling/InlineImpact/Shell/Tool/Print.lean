import InlineImpact.Shell.Arithmetic
import InlineImpact.Shell.Tool

/-!
Printing: words as they are, or as a format says. Escapes may stand for single bytes.
-/
namespace InlineImpact.Shell.Tool

def bytesOf (s : List Char) : List UInt8 := (String.ofList s).toUTF8.toList

def escapes : List (Char × UInt8) :=
  [('a', 7), ('b', 8), ('f', 12), ('n', 10), ('r', 13), ('t', 9), ('v', 11), ('\\', 92)]

def isOctal (c : Char) : Bool := '0' ≤ c && c ≤ '7'

/-- The byte that up to three octal digits stand for. -/
def octalByte (ds : List Char) : UInt8 := UInt8.ofNat (Text.ofDigits 8 (ds.filterMap Text.asciiDigit?))

/-- Escapes in at most `n` characters; the flag tells that printing stops. With `marked` a zero may stand
in front of the digits of a byte. -/
def unescape (marked : Bool) : Nat → List Char → List UInt8 × Bool
  | 0, _ => ([], false)
  | n + 1, s =>
    let andThen (bytes : List UInt8) (rest : List Char) : List UInt8 × Bool :=
      let (more, stop) := unescape marked n rest
      (bytes ++ more, stop)
    match s with
    | [] => ([], false)
    | '\\' :: c :: rest =>
      let body := if marked && c == '0' && rest.head?.any isOctal then rest else c :: rest
      let digits := (body.take 3).takeWhile isOctal
      if c == 'c' && marked then ([], true)
      else if isOctal c then andThen [octalByte digits] (body.drop digits.length)
      else match escapes.lookup c with
        | some b => andThen [b] rest
        | none => andThen [92] (c :: rest)
    | c :: rest => andThen (bytesOf [c]) rest

def ofBytes (st : State) (bytes : List UInt8) : Report :=
  { out := ByteArray.mk bytes.toArray, workspace := st.workspace }

def echo : Tool := fun args st =>
  let (ends, args) := match args with
    | "-n" :: rest => (false, rest)
    | _ => (true, args)
  let text := (" ".intercalate args).toList
  let (bytes, stop) := unescape true (text.length + 1) text
  ofBytes st (bytes ++ if ends && !stop then [10] else [])

/-- How one argument is printed. -/
structure Directive where
  /-- The directive as it is written. -/
  source : List Char
  flags : List Char
  width : Nat
  places : Option Nat
  kind : Char

/-- What is printed so far, the arguments that are left, and what is said of wrong ones. -/
structure Printing where
  bytes : List UInt8 := []
  args : List String
  complaints : List String := []
  status : Int := 0
  stopped : Bool := false

namespace Printing

def put (p : Printing) (bytes : List UInt8) : Printing := { p with bytes := p.bytes ++ bytes }

/-- Says that something is wrong, and goes on. -/
def complain (p : Printing) (what : String) : Printing :=
  { p with complaints := p.complaints ++ [what], status := 1 }

/-- Says what is wrong with the format, and stops. -/
def abort (p : Printing) (what : String) : Printing :=
  { p.complain what with status := 2, stopped := true }

/-- The next argument; a missing one counts as empty. -/
def next (p : Printing) : String × Printing := (p.args.headD "", { p with args := p.args.drop 1 })

/-- The next argument as a number of 64 bits; a character after a quote stands for its first byte. -/
def nextNumber (signed : Bool) (p : Printing) : Int × Printing :=
  let (word, p) := p.next
  match word.toList with
  | [] => (0, p)
  | '\'' :: rest | '"' :: rest => (((bytesOf rest).headD 0).toNat, p)
  | s =>
    let (negative, body) := Text.splitSign (Arithmetic.skip s)
    match Arithmetic.leading? body with
    | none => (0, p.complain (word ++ ": expected numeric value"))
    | some (n, rest) =>
      let most := if !signed then Nat.pow 2 64 - 1
        else if negative then Nat.pow 2 63 else Nat.pow 2 63 - 1
      let value := if signed || n ≤ most then Text.withSign negative (min n most) else most
      if !rest.isEmpty then (value, p.complain (word ++ ": not completely converted"))
      else if most < n then (value, p.complain (word ++ ": Numerical result out of range"))
      else (value, p)

end Printing

namespace Directive

def pad (d : Directive) (sign body : List UInt8) (zeros : Bool) : List UInt8 :=
  let missing := d.width - (sign.length + body.length)
  if d.flags.contains '-' then sign ++ body ++ List.replicate missing 32
  else if zeros then sign ++ List.replicate missing 48 ++ body
  else List.replicate missing 32 ++ sign ++ body

def integer (d : Directive) (base : Nat) (upper signed : Bool) (n : Int) : List UInt8 :=
  let value := if signed then n.natAbs else Arithmetic.bits n
  let ds := if value = 0 && d.places = some 0 then [] else Nat.toDigits base value
  let ds := if base = 8 && d.flags.contains '#' && ds.head? ≠ some '0' then '0' :: ds else ds
  let ds := List.replicate (d.places.getD 1 - ds.length) '0' ++ ds
  let mark := if base = 16 && d.flags.contains '#' && value ≠ 0 then ['0', 'x'] else []
  let sign := if !signed then []
    else if n < 0 then ['-']
    else (['+', ' '].filter d.flags.contains).take 1
  let cased (s : List Char) : List UInt8 := bytesOf (if upper then s.map Char.toUpper else s)
  d.pad (cased (sign ++ mark)) (cased ds) (d.flags.contains '0' && d.places.isNone)

def text (d : Directive) (bytes : List UInt8) : List UInt8 :=
  d.pad [] (bytes.take (d.places.getD bytes.length)) false

/-- Prints the next argument; a directive that is unknown prints nothing. -/
def run (d : Directive) (p : Printing) : Printing :=
  let number (base : Nat) (upper signed : Bool) : Printing :=
    let (n, p) := p.nextNumber signed
    p.put (d.integer base upper signed n)
  match d.kind with
  | 's' => let (w, p) := p.next; p.put (d.text w.toUTF8.toList)
  | 'b' =>
    let (w, p) := p.next
    let (bytes, stop) := unescape true (w.length + 1) w.toList
    { p.put (d.text bytes) with stopped := stop }
  | 'c' => let (w, p) := p.next; p.put (d.pad [] [w.toUTF8.toList.headD 0] false)
  | 'd' | 'i' => number 10 false true
  | 'u' => number 10 false false
  | 'o' => number 8 false false
  | 'x' => number 16 false false
  | 'X' => number 16 true false
  | _ => p.abort (String.ofList d.source ++ ": invalid directive")

/-- A width or a number of places: digits, or a star for the next argument. -/
def measure (s : List Char) (p : Printing) : Int × List Char × Printing :=
  match s with
  | '*' :: rest => let (n, p) := p.nextNumber true; (n, rest, p)
  | _ => let (n, rest) := Arithmetic.digits 10 s; (n, rest, p)

/-- The most characters that a directive can fill up to; one that asks for more prints nothing. -/
def maxWidth : Nat := 1000000

/-- Reads a directive after its mark, and prints it; gives what follows, too. A negative width stands
for an alignment at the left, a negative number of places for none. -/
def take (s : List Char) (p : Printing) : List Char × Printing :=
  let flags := s.takeWhile "-+ #0".toList.contains
  let (width, rest, p) := measure (s.drop flags.length) p
  let (places, rest, p) := match rest with
    | '.' :: rest => let (n, rest, p) := measure rest p; (if n < 0 then none else some n.toNat, rest, p)
    | _ => (none, rest, p)
  match rest with
  | [] => ([], p.abort "missing format character")
  | kind :: after =>
    let d : Directive := { kind, places, width := width.natAbs
                           flags := if width < 0 then '-' :: flags else flags
                           source := '%' :: s.take (s.length - after.length) }
    if max d.width (places.getD 0) ≤ maxWidth then (after, d.run p)
    else (after, { ({ d with width := 0, places := none }.run p) with bytes := p.bytes })

end Directive

/-- One pass over a format of at most `n` characters. -/
def format : Nat → List Char → Printing → Printing
  | 0, _, p => p
  | n + 1, s, p =>
    match s with
    | [] => p
    | '%' :: '%' :: rest => format n rest (p.put [37])
    | '%' :: rest =>
      let (rest, p) := Directive.take rest p
      if p.stopped then p else format n rest p
    | '\\' :: c :: rest =>
      let digits := ((c :: rest).take 3).takeWhile isOctal
      let used := if digits.isEmpty then 2 else 1 + digits.length
      format n (s.drop used) (p.put (unescape false (s.length + 1) (s.take used)).1)
    | c :: rest => format n rest (p.put (bytesOf [c]))

/-- Goes over the format until the arguments are used up. -/
def formatAll (f : List Char) : Nat → Printing → Printing
  | 0, p => p
  | n + 1, p =>
    let q := format (f.length + 1) f p
    if q.stopped || q.args.isEmpty || q.args.length = p.args.length then q else formatAll f n q

def printf : Tool := fun args st =>
  match if args.head? == some "--" then args.drop 1 else args with
  | [] => complain st 2 ["printf", "usage: printf format [arg ...]"]
  | f :: args =>
    let p := formatAll f.toList (args.length + 1) { args }
    let said := p.complaints.map fun c => st.name ++ ": " ++ toString st.line ++ ": printf: " ++ c ++ "\n"
    { out := ByteArray.mk p.bytes.toArray, err := ("".intercalate said).toUTF8, saidFirst := true
      status := p.status, workspace := st.workspace }

end InlineImpact.Shell.Tool
