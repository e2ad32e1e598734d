import InlineImpact.Shell.Tool
import InlineImpact.Text.Numeral

/-!
Tests of texts, numbers and files. What a word is depends on the words that follow it, and a test that
cannot be understood is neither true nor false.
-/
namespace InlineImpact.Shell.Tool

/-! ### Single tests -/

def isFile (st : State) (p : String) : Bool :=
  match st.workspace.entry? p with
  | some (.file ..) => true
  | _ => false

def isExecutable (st : State) (p : String) : Bool :=
  match st.workspace.entry? p with
  | some (.file _ executable) => executable
  | some .directory => true
  | none => false

def isFilled (st : State) (p : String) : Bool :=
  match st.workspace.entry? p with
  | some (.file content _) => !content.isEmpty
  | some .directory => true
  | none => false

/-- Both paths lead to the same place, and something is there. -/
def isSamePlace (st : State) (a b : String) : Bool :=
  match st.workspace.locate a, st.workspace.locate b with
  | .ok p, .ok q => p = q && (st.workspace.entries.get? p).isSome
  | _, _ => false

def onOne? (st : State) (op a : String) : Option Bool :=
  match op with
  | "-z" => some (a = "")
  | "-n" => some (a ≠ "")
  | "-e" | "-r" | "-w" | "-O" | "-G" => some (st.workspace.holds a)
  | "-f" => some (isFile st a)
  | "-d" => some (st.workspace.isDirectory a)
  | "-x" => some (isExecutable st a)
  | "-s" => some (isFilled st a)
  | "-h" | "-L" | "-p" | "-S" | "-b" | "-c" | "-t" | "-u" | "-g" | "-k" => some false
  | _ => none

/-- A whole number of 64 bits, with blanks around it. -/
def number (s : String) : Except (List String) Int :=
  let (negative, body) := Text.splitSign (s.toList.dropWhile Text.isNumeralBlank)
  let ds := body.takeWhile Char.isDigit
  let n := Text.withSign negative (Text.ofDigits 10 (ds.filterMap Text.asciiDigit?))
  let fits := -(Nat.pow 2 63 : Nat) ≤ n && n < (Nat.pow 2 63 : Nat)
  if !ds.isEmpty && (body.drop ds.length).all Text.isNumeralBlank && fits then .ok n
  else .error ["Illegal number", s]

def onNumbers (f : Int → Int → Bool) (a b : String) : Except (List String) Bool := do
  return f (← number a) (← number b)

/-- All files were written within a second, so that none is older than another. -/
def onTwo? (st : State) (op a b : String) : Option (Except (List String) Bool) :=
  match op with
  | "=" => some (.ok (a = b))
  | "!=" => some (.ok (a ≠ b))
  | "<" => some (.ok (a < b))
  | ">" => some (.ok (b < a))
  | "-eq" => some (onNumbers (· = ·) a b)
  | "-ne" => some (onNumbers (· ≠ ·) a b)
  | "-lt" => some (onNumbers (· < ·) a b)
  | "-le" => some (onNumbers (· ≤ ·) a b)
  | "-gt" => some (onNumbers (· > ·) a b)
  | "-ge" => some (onNumbers (· ≥ ·) a b)
  | "-ef" => some (.ok (isSamePlace st a b))
  | "-nt" | "-ot" => some (.ok false)
  | _ => none

/-! ### Words -/

/-- What is said of a word; an empty one is not named. -/
def about (word reason : String) : List String := [word, reason].filter (· ≠ "")

def isUnary (st : State) (w : String) : Bool := (onOne? st w "").isSome

def isBinary (st : State) (w : String) : Bool := (onTwo? st w "0" "0").isSome

/-- The front of the words is an operator on one operand: one follows, and it is not an operator itself. -/
def opensUnary (st : State) : List String → Bool
  | op :: _ :: [] => isUnary st op
  | op :: w :: _ :: _ => isUnary st op && !isBinary st w
  | _ => false

/-- The value of a test, and the words from the last one that belongs to it on. -/
abbrev Judgement := Except (List String) (Bool × List String)

/-- A text that stands alone, or two operands with an operator between them. -/
def judgeText (st : State) (words : List String) : Judgement :=
  match words with
  | [] => .ok (false, [])
  | [a] => .ok (a ≠ "", [a])
  | [a, op] => if isBinary st op then .error (about op "argument expected") else .ok (a ≠ "", [a, op])
  | a :: op :: b :: rest =>
    match onTwo? st op a b with
    | some r => r.map (·, b :: rest)
    | none => .ok (a ≠ "", words)

mutual

/-- Tests of which one has to hold; all are judged. The tests are nested at most `n` deep. -/
def judgeAny (st : State) (n : Nat) (words : List String) : Judgement := do
  match n with
  | 0 => .error ["too many arguments"]
  | n + 1 =>
    let (a, left) ← judgeAll st n words
    match left with
    | _ :: "-o" :: rest =>
      let (b, left) ← judgeAny st n rest
      return (a || b, left)
    | _ => return (a, left)

/-- Tests that all have to hold. -/
def judgeAll (st : State) (n : Nat) (words : List String) : Judgement := do
  match n with
  | 0 => .error ["too many arguments"]
  | n + 1 =>
    let (a, left) ← judgeOne st n words
    match left with
    | _ :: "-a" :: rest =>
      let (b, left) ← judgeAll st n rest
      return (a && b, left)
    | _ => return (a, left)

/-- One test, negated or in brackets. -/
def judgeOne (st : State) (n : Nat) (words : List String) : Judgement := do
  match n with
  | 0 => .error ["too many arguments"]
  | n + 1 =>
    match words with
    | ["!"] => return (true, words)
    | "!" :: rest =>
      let (a, left) ← judgeOne st n rest
      return (!a, left)
    | "(" :: ")" :: rest => return (false, ")" :: rest)
    | "(" :: w :: rest =>
      match ← judgeAny st n (w :: rest) with
      | (a, _ :: ")" :: rest) => return (a, ")" :: rest)
      | _ => .error ["closing paren expected"]
    | op :: a :: rest =>
      if opensUnary st words then return ((onOne? st op a).getD false, a :: rest) else judgeText st words
    | _ => judgeText st words

end

/-- Three words with an operator in the middle are two operands, and brackets around one or two words are
left out, whatever the words are otherwise. -/
def judge (st : State) (words : List String) : Except (List String) Bool := do
  let whole (words : List String) : Judgement := judgeAny st (4 * words.length + 4) words
  let judgement := match words with
    | [_, op, _] => if isBinary st op then judgeText st words else whole (unbracketed words)
    | [_, _, _, _] => whole (unbracketed words)
    | _ => whole words
  match ← judgement with
  | (_, last :: _ :: _) => .error (about last "unexpected operator")
  | (r, _) => return r
where
  unbracketed (words : List String) : List String :=
    if words.head? == some "(" && words.getLast? == some ")" then (words.drop 1).dropLast else words

def testAs (name : String) (words : List String) (st : State) : Report :=
  match judge st words with
  | .ok b => decide b st
  | .error words => complain st 2 (name :: words)

def test : Tool := testAs "test"

def bracket : Tool := fun args st =>
  if args.getLast? == some "]" then testAs "[" args.dropLast st else complain st 2 ["[", "missing ]"]

end InlineImpact.Shell.Tool
