import InlineImpact.Shell.Arithmetic
import InlineImpact.Shell.Field
import InlineImpact.Shell.Token

/-!
From a word as it is written to the fields it stands for: parameters, the output of commands and the
values of expressions are put in, and quotes are taken away. A parameter that has to be set and an
expression without a value are faults.
-/
namespace InlineImpact.Shell

inductive Part where
  | char (quoted : Bool) (c : Char)
  /-- Quotes were here, so the field stays even if it is empty. -/
  | quotes
  | parameter (quoted : Bool) (name : String)
  /-- A parameter changed by an operator and a word. -/
  | altered (quoted : Bool) (name operator : String) (word : List Char)
  | length (name : String)
  /-- Braces around something that is no parameter. -/
  | malformed
  /-- The output of a script that stood between brackets or between ticks. -/
  | output (quoted ticked : Bool) (script : List Char)
  | number (quoted : Bool) (expression : List Char)

/-- What surrounds a text. -/
inductive Quotation where
  | none
  | double
  /-- A document, in which quotes stand for themselves. -/
  | document
  deriving DecidableEq, Repr

namespace Part

/-- The operators on parameters, longer ones before those they begin with. -/
def alterations : List String :=
  [":-", ":=", ":+", ":?", "##", "%%", "-", "=", "+", "?", "#", "%"]

def isSpecial (c : Char) : Bool := "@*#?$!-".toList.contains c || c.isDigit

def nameLength (s : List Char) : Nat :=
  match s with
  | c :: _ =>
    if c.isDigit then (s.takeWhile Char.isDigit).length
    else if isSpecial c then 1
    else (s.takeWhile fun c => c.isAlphanum || c == '_').length
  | [] => 0

/-- What stands between the braces of a parameter. -/
def ofBraces (quoted : Bool) (s : List Char) : Part :=
  match s with
  | '#' :: c :: rest => .length (String.ofList (c :: rest))
  | _ =>
    let name := String.ofList (s.take (nameLength s))
    let rest := s.drop (nameLength s)
    match alterations.find? fun op => op.toList.isPrefixOf rest with
    | some op => if name == "" then .malformed else .altered quoted name op (rest.drop op.length)
    | none => if name == "" || !rest.isEmpty then .malformed else .parameter quoted name

/-- What stands between the brackets of a substitution; a second pair makes it an expression. -/
def ofParens (quoted : Bool) (s : List Char) : Part :=
  if s.head? == some '(' && s.getLast? == some ')' then .number quoted ((s.drop 1).dropLast)
  else .output quoted false s

/-- A script between ticks: a backslash protects only ticks, dollars and itself. -/
def unticked : List Char → List Char
  | '\\' :: c :: rest =>
    if c == '\x60' || c == '$' || c == '\\' then c :: unticked rest else '\\' :: c :: unticked rest
  | c :: rest => c :: unticked rest
  | [] => []

def inside (n : Nesting) (s : List Char) : List Char × List Char :=
  let cut := splitWord true [n] s
  (cut.word.dropLast, cut.rest)

/-- The characters that a backslash protects inside of a quotation. -/
def isProtected (q : Quotation) (c : Char) : Bool :=
  q == .none || c == '$' || c == '\x60' || c == '\\' || (q == .double && c == '"')

/-- The parts of a word of at most `n` characters. -/
def read (q : Quotation) : Nat → List Char → List Part
  | 0, _ => []
  | n + 1, s =>
    let quoted := q != .none
    match s with
    | [] => []
    | '\\' :: '\n' :: rest => read q n rest
    | '\\' :: c :: rest =>
      if isProtected q c then .char true c :: read q n rest
      else .char true '\\' :: read q n (c :: rest)
    | '\x60' :: rest =>
      let (body, after) := inside .ticks rest
      .output quoted true (unticked body) :: read q n after
    | '$' :: '(' :: rest =>
      let (body, after) := inside .parens rest
      ofParens quoted body :: read q n after
    | '$' :: '{' :: rest =>
      let (body, after) := inside .braces rest
      ofBraces quoted body :: read q n after
    | '$' :: rest =>
      let length := match rest with
        | c :: _ => if isSpecial c then 1 else nameLength rest
        | [] => 0
      if length = 0 then .char quoted '$' :: read q n rest
      else .parameter quoted (String.ofList (rest.take length)) :: read q n (rest.drop length)
    | c :: rest =>
      if c == '\'' && q == .none then
        let (body, after) := inside .single rest
        .quotes :: body.map (.char true) ++ read q n after
      else if c == '"' && q != .document then
        let (body, after) := inside .double rest
        let parts := if body == "$@".toList then [.parameter true "@"] else .quotes :: read .double n body
        parts ++ read q n after
      else .char quoted c :: read q n rest

end Part

/-- All arguments, each a field of its own. -/
def ofArguments (quoted : Bool) : List String → List Mark
  | [] => []
  | [a] => (if quoted then [.quotes] else []) ++ Mark.ofText quoted a
  | a :: rest =>
    (if quoted then [.quotes] else []) ++ Mark.ofText quoted a ++ .cut :: ofArguments quoted rest

/-- Runs a script that stood between brackets or ticks for its output. -/
abbrev Substitute := (ticked : Bool) → List Char → State → String × State

def alter (st : State) (quoted : Bool) (name operator : String) (word : List Mark) :
    List Mark × State :=
  let value := st.parameter? name
  let text := value.getD ""
  let strict := operator.startsWith ":"
  let isSet := if strict then value.any (· ≠ "") else value.isSome
  let kept := if name == "@" && isSet then ofArguments quoted st.arguments else Mark.ofText quoted text
  match operator with
  | "-" | ":-" => (if isSet then kept else word, st)
  | "?" | ":?" =>
    if isSet then (kept, st)
    else
      let said := Mark.whole word
      let reason := if !said.isEmpty then said
        else if strict then "parameter not set or null" else "parameter not set"
      ([], st.fail [name, reason])
  | "=" | ":=" => if isSet then (kept, st) else (word, st.assign name (Mark.whole word))
  | "+" | ":+" => (if isSet then word else [], st)
  | "#" | "##" =>
    (Mark.ofText quoted (String.ofList (Glob.dropFront (operator == "##") (Mark.globs word) text.toList)),
      st)
  | _ =>
    (Mark.ofText quoted (String.ofList (Glob.dropBack (operator == "%%") (Mark.globs word) text.toList)),
      st)

/-- The value of a parameter; one that is not set is a fault if the shell says so. -/
def parameter (st : State) (quoted : Bool) (name : String) : List Mark × State :=
  match st.parameter? name with
  | some text => (Mark.ofText quoted text, st)
  | none => ([], if st.options.contains 'u' then st.fail [name, "parameter not set"] else st)

def joinedArguments (st : State) : String :=
  (String.ofList (st.separators.take 1)).intercalate st.arguments

/-- Puts in what the parts of a word stand for; the word has at most `n` levels of words inside. -/
def expand (substitute : Substitute) : Nat → Quotation → List Char → State → List Mark × State
  | 0, _, _, st => ([], st)
  | n + 1, q, raw, st =>
    (Part.read q (raw.length + 1) raw).foldl (fun (ms, st) part =>
      if st.fault.isSome then (ms, st)
      else
        let (more, st) := one n part st
        (ms ++ more, st)) ([], st)
where
  one (n : Nat) (part : Part) (st : State) : List Mark × State :=
    match part with
    | .char quoted c => ([if quoted then .solid c else .plain c], st)
    | .quotes => ([.quotes], st)
    | .malformed => ([], st.fail ["Bad substitution"])
    | .parameter quoted "@" => (ofArguments quoted st.arguments, st)
    | .parameter false "*" => (ofArguments false st.arguments, st)
    | .parameter true "*" => (Mark.ofText true (joinedArguments st), st)
    | .parameter quoted name => parameter st quoted name
    | .altered quoted name operator word =>
      let isPattern := operator.startsWith "#" || operator.startsWith "%"
      let (ms, st) := expand substitute n (if quoted && !isPattern then .double else .none) word st
      alter st quoted name operator (ms.map Mark.loosen)
    | .length name => (Mark.ofText true (toString ((st.parameter? name).getD "").length), st)
    | .output quoted ticked script =>
      let (text, st) := substitute ticked script st
      (Mark.ofText quoted text, st)
    | .number quoted expression =>
      let (ms, st) := expand substitute n .double expression st
      let text := (Mark.whole ms).toList
      match Arithmetic.value st.bindings text with
      | .ok (v, bindings) => (Mark.ofText quoted (toString v), { st with bindings })
      | .error fault => ([], st.fail (fault.words text))

end InlineImpact.Shell
