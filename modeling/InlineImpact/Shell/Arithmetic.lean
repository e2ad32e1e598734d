import InlineImpact.Keyed
import InlineImpact.Text.Numeral

/-!
Integer expressions: the usual operators with the usual ranks, choices, assignments, brackets, numbers
and the names of variables. Division goes toward zero, a truth is one and a falsehood zero, and
numbers have sixty-four bits. The side of a connective or a choice that does not count is read without
being evaluated.
-/
namespace InlineImpact.Shell.Arithmetic

inductive Fault where
  | byZero
  | noOperand
  /-- Another text was expected here. -/
  | missing (text : String)
  /-- Something follows the expression. -/
  | excess
  | notNumber (text : String)
  deriving DecidableEq, Repr

def Fault.words (f : Fault) (expression : List Char) : List String :=
  let about (reason : String) : List String :=
    ["arithmetic expression", reason, "\"" ++ String.ofList expression ++ "\""]
  match f with
  | byZero => about "division by zero"
  | noOperand => about "expecting primary"
  | missing text => about ("expecting '" ++ text ++ "'")
  | excess => about "expecting EOF"
  | notNumber text => ["Illegal number", text]

abbrev Bindings := Keyed String String

/-- A value, the variables after its assignments, and what follows it. -/
abbrev Reading := Except Fault (Int × Bindings × List Char)

/-- Reads an expression; unless it is `live` nothing is evaluated, and the value does not matter. -/
abbrev Reader := (live : Bool) → Bindings → List Char → Reading

/-! ### Numbers -/

def truth (b : Bool) : Int := if b then 1 else 0

def wrap (n : Int) : Int := Int.bmod n (Nat.pow 2 64)

/-- The bits of a number as a natural. -/
def bits (n : Int) : Nat := (n.emod (Nat.pow 2 64 : Nat)).toNat

def onBits (f : Nat → Nat → Nat) (a b : Int) : Int := wrap (f (bits a) (bits b) : Nat)

def maxValue : Nat := Nat.pow 2 63 - 1

def skip (s : List Char) : List Char := s.dropWhile Text.isNumeralBlank

/-- The digits at the front as a number, and what follows them. -/
def digits (base : Nat) (s : List Char) : Nat × List Char :=
  let ds := s.takeWhile fun c => (Text.digitIn? base c).isSome
  (Text.ofDigits base (ds.filterMap Text.asciiDigit?), s.drop ds.length)

/-- The number at the front in the base that its first characters tell, and what follows it. -/
def leading? (s : List Char) : Option (Nat × List Char) :=
  match s with
  | '0' :: rest =>
    match rest with
    | x :: d :: _ =>
      if (x == 'x' || x == 'X') && (Text.digitIn? 16 d).isSome then some (digits 16 (rest.drop 1))
      else some (digits 8 s)
    | _ => some (digits 8 s)
  | c :: _ => if c.isDigit then some (digits 10 s) else none
  | [] => none

/-- The value of a variable; without a text it is zero. -/
def valueOf (bs : Bindings) (name : String) : Except Fault Int :=
  let text := (bs.get? name).getD ""
  let body := skip text.toList
  if body.isEmpty then .ok 0
  else
    let (negative, body) := Text.splitSign body
    match leading? body with
    | some (n, rest) =>
      if (skip rest).isEmpty && n ≤ maxValue then .ok (Text.withSign negative n)
      else .error (.notNumber text)
    | none => .error (.notNumber text)

/-! ### Operators -/

/-- The operators on two numbers by rank, the ones that bind least first. -/
def levels : List (List String) := [["|"], ["^"], ["&"], ["==", "!="], ["<=", ">=", "<", ">"],
  ["<<", ">>"], ["+", "-"], ["*", "/", "%"]]

def apply (op : String) (a b : Int) : Except Fault Int :=
  match op with
  | "|" => .ok (onBits (· ||| ·) a b)
  | "^" => .ok (onBits (· ^^^ ·) a b)
  | "&" => .ok (onBits (· &&& ·) a b)
  | "==" => .ok (truth (a = b))
  | "!=" => .ok (truth (a ≠ b))
  | "<=" => .ok (truth (a ≤ b))
  | ">=" => .ok (truth (a ≥ b))
  | "<" => .ok (truth (a < b))
  | ">" => .ok (truth (a > b))
  | "<<" => .ok (wrap (a * Nat.pow 2 (bits b % 64)))
  | ">>" => .ok (a.fdiv (Nat.pow 2 (bits b % 64) : Nat))
  | "+" => .ok (wrap (a + b))
  | "-" => .ok (wrap (a - b))
  | "*" => .ok (wrap (a * b))
  | "/" => if b = 0 then .error .byZero else .ok (wrap (Int.tdiv a b))
  | _ => if b = 0 then .error .byZero else .ok (Int.tmod a b)

/-- The signs, longer ones before those they begin with. -/
def signs : List String := ["<<=", ">>=", "&&", "||", "==", "!=", "<=", ">=", "<<", ">>", "+=", "-=",
  "*=", "/=", "%=", "&=", "|=", "^=", "+", "-", "*", "/", "%", "<", ">", "&", "|", "^", "=", "?", ":",
  "(", ")", "!", "~"]

/-- The sign at the front, if it is one of these, and the rest. -/
def sign? (wanted : List String) (s : List Char) : Option (String × List Char) :=
  let s := skip s
  ((signs.find? fun op => op.toList.isPrefixOf s).filter wanted.contains).map fun op =>
    (op, s.drop op.length)

/-- What follows a sign that has to be there. -/
def after (sign : String) (s : List Char) : Except Fault (List Char) :=
  match sign? [sign] s with
  | some (_, rest) => .ok rest
  | none => .error (.missing sign)

def assignments : List String := ["=", "+=", "-=", "*=", "/=", "%=", "&=", "|=", "^=", "<<=", ">>="]

def isNamePart (c : Char) : Bool := c.isAlphanum || c == '_'

/-- The name of a variable at the front, and the rest. -/
def name? (s : List Char) : Option (String × List Char) :=
  let s := skip s
  let name := s.takeWhile isNamePart
  if name.head?.any fun c => !c.isDigit then some (String.ofList name, s.drop name.length) else none

/-! ### Expressions -/

/-- Folds further operands of one level from the left. -/
def chain (level : List String) (operand : Reader) (live : Bool) : Nat → Int → Bindings → List Char → Reading
  | 0, a, bs, s => .ok (a, bs, s)
  | n + 1, a, bs, s =>
    match sign? level s with
    | none => .ok (a, bs, s)
    | some (op, rest) => do
      let (b, bs, rest) ← operand live bs rest
      chain level operand live n (← if live then apply op a b else .ok b) bs rest

/-- Operands of all levels, the last level's ones by `atom`. -/
def ranked (atom : Reader) : List (List String) → Reader
  | [], live, bs, s => atom live bs s
  | level :: levels, live, bs, s => do
    let (a, bs, rest) ← ranked atom levels live bs s
    chain level (ranked atom levels) live rest.length a bs rest

/-- Operands with a connective between them; an operand after one that decides does not count. -/
def connected (op : String) (decides : Int → Bool) (operand : Reader) : Nat → Reader
  | 0, _, _, _ => .error .noOperand
  | n + 1, live, bs, s => do
    let (a, bs, rest) ← operand live bs s
    match sign? [op] rest with
    | none => return (a, bs, rest)
    | some (_, rest) =>
      let (b, bs, rest) ← connected op decides operand n (live && !decides a) bs rest
      return (truth (if decides a then a ≠ 0 else b ≠ 0), bs, rest)

def conjunction (atom : Reader) (n : Nat) : Reader := connected "&&" (· = 0) (ranked atom levels) n

def disjunction (atom : Reader) (n : Nat) : Reader := connected "||" (· ≠ 0) (conjunction atom n) n

mutual

/-- An assignment or a choice, nested at most `n` deep. -/
def expression (n : Nat) (live : Bool) (bs : Bindings) (s : List Char) : Reading :=
  match n with
  | 0 => .error .noOperand
  | n + 1 =>
    match (name? s).bind fun (name, rest) => (sign? assignments rest).map (name, ·) with
    | none => choice n live bs s
    | some (name, op, rest) => do
      let (b, bs, rest) ← expression n live bs rest
      if !live then return (b, bs, rest)
      else
        let v ← if op == "=" then .ok b
          else do apply (String.ofList op.toList.dropLast) (← valueOf bs name) b
        return (v, bs.put name (toString v), rest)

/-- One of two expressions by a truth, or an expression without a choice. -/
def choice (n : Nat) (live : Bool) (bs : Bindings) (s : List Char) : Reading :=
  match n with
  | 0 => .error .noOperand
  | n + 1 => do
    let (a, bs, rest) ← disjunction (operand n) (s.length + 1) live bs s
    match sign? ["?"] rest with
    | none => return (a, bs, rest)
    | some (_, rest) =>
      let (b, bs, rest) ← expression n (live && a ≠ 0) bs rest
      let (c, bs, rest) ← choice n (live && a = 0) bs (← after ":" rest)
      return (if a ≠ 0 then b else c, bs, rest)

/-- A number, a variable, a signed operand, or an expression in brackets. -/
def operand (n : Nat) (live : Bool) (bs : Bindings) (s : List Char) : Reading :=
  match n with
  | 0 => .error .noOperand
  | n + 1 =>
    let signed (f : Int → Int) (rest : List Char) : Reading := do
      let (a, bs, rest) ← operand n live bs rest
      return (wrap (f a), bs, rest)
    match sign? ["(", "-", "+", "!", "~"] s with
    | some ("(", rest) => do
      let (a, bs, rest) ← expression n live bs rest
      return (a, bs, ← after ")" rest)
    | some ("-", rest) => signed (fun a => -a) rest
    | some ("+", rest) => signed id rest
    | some ("!", rest) => signed (fun a => truth (a = 0)) rest
    | some (_, rest) => signed (fun a => -a - 1) rest
    | none =>
      match name? s, leading? (skip s) with
      | some (name, rest), _ => do return (← if live then valueOf bs name else .ok 0, bs, rest)
      | none, some (a, rest) => .ok ((min a maxValue : Nat), bs, rest)
      | none, none => .error .noOperand

end

/-- The value of a text and the variables after it. -/
def value (bs : Bindings) (s : List Char) : Except Fault (Int × Bindings) := do
  let (a, bs, rest) ← expression (3 * s.length + 3) true bs s
  if (skip rest).isEmpty then return (a, bs) else .error .excess

end InlineImpact.Shell.Arithmetic
