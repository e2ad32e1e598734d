import InlineImpact.Shell.Script
import InlineImpact.Shell.Token

/-!
Reading scripts. It goes down the grammar; every step takes a token or goes one level deeper, so the
number of tokens bounds it. A token that does not fit is named together with what should stand there, if
only one thing could.
-/
namespace InlineImpact.Shell

/-- Tokens with their lines; the last one is an ending or a word that does not end. -/
abbrev Tokens := List (Nat × Token)

namespace Tokens

def isWord (text : String) : Tokens → Bool
  | (_, .word w) :: _ => w == text.toList
  | _ => false

def isOperator (text : String) : Tokens → Bool
  | (_, .operator op) :: _ => op == text
  | _ => false

def isOneOf (texts : List String) (ts : Tokens) : Bool := texts.any fun w => isWord w ts

def skipNewlines (ts : Tokens) : Tokens := ts.dropWhile (·.2 == .newline)

/-- Words that end a list of commands where a command could start. -/
def closers : List String := ["then", "elif", "else", "fi", "do", "done", "esac", "\x7d"]

/-- Words that mean something of their own where a command could start. -/
def reserved : List String := closers ++ ["!", "case", "for", "if", "in", "until", "while", "\x7b"]

def isEnding : Tokens → Bool
  | [] | (_, .ending) :: _ => true
  | _ => false

def endsList (ts : Tokens) : Bool :=
  isEnding ts || isOperator ")" ts || isOperator ";;" ts || isOneOf closers ts

/-! ### What does not fit -/

def quoted (text : String) : String := "\"" ++ text ++ "\""

def spelled : Token → String
  | .word w =>
    let text := String.ofList w
    if reserved.contains text then quoted text else "word"
  | .operator op => if op.startsWith "<" || op.startsWith ">" then "redirection" else quoted op
  | .descriptor _ | .document .. => "redirection"
  | .newline => "newline"
  | .ending => "end of file"
  | .broken reason => reason

/-- The first token does not fit; a line end counts for the line that it starts. -/
def misfit (ts : Tokens) (wanted : Option String) : Misfit :=
  let expecting := wanted.elim "" fun w => " (expecting " ++ w ++ ")"
  match ts with
  | [] => ⟨0, spelled .ending ++ " unexpected"⟩
  | (line, .broken reason) :: _ => ⟨line, reason⟩
  | (line, t) :: _ => ⟨if t == .newline then line + 1 else line, spelled t ++ " unexpected" ++ expecting⟩

/-- What follows a word or an operator that has to stand here. -/
def expect (text : String) (ts : Tokens) : Except Misfit Tokens :=
  if isWord text ts || isOperator text ts then .ok (ts.drop 1) else .error (misfit ts (some (quoted text)))

/-! ### Redirections and words -/

def direction? : String → Option (Nat × Direction)
  | "<" => some (0, .read)
  | ">" | ">|" => some (1, .write)
  | ">>" => some (1, .append)
  | ">&" => some (1, .same)
  | "<&" => some (0, .same)
  | _ => none

/-- What follows the sign of a redirection. -/
def target? (descriptor : Option Nat) (op : String) (ts : Tokens) :
    Option (Except Misfit (Redirection × Tokens)) :=
  if op.startsWith "<<" then
    some (match ts with
      | (_, .document quoted text) :: rest => .ok (⟨descriptor.getD 0, .document quoted, text⟩, rest)
      | _ => .error (misfit ts none))
  else (direction? op).map fun (usual, direction) =>
    match ts with
    | (_, .word w) :: rest => .ok (⟨descriptor.getD usual, direction, w⟩, rest)
    | _ => .error (misfit ts none)

def redirection? : Tokens → Option (Except Misfit (Redirection × Tokens))
  | (_, .descriptor n) :: (_, .operator op) :: rest => target? (some n) op rest
  | (_, .operator op) :: rest => target? none op rest
  | _ => none

/-- The redirections at the front. -/
def redirections : Nat → Tokens → Except Misfit ((List Redirection) × Tokens)
  | 0, ts => .ok ([], ts)
  | n + 1, ts =>
    match redirection? ts with
    | none => .ok ([], ts)
    | some reading => do
      let (r, rest) ← reading
      let (rs, rest) ← redirections n rest
      return (r :: rs, rest)

/-- The words of a simple command, with redirections anywhere between them. -/
def simpleParts : Nat → Tokens → Except Misfit ((List (List Char) × List Redirection) × Tokens)
  | 0, ts => .ok (([], []), ts)
  | n + 1, ts =>
    match redirection? ts, ts with
    | some reading, _ => do
      let (r, rest) ← reading
      let ((ws, rs), rest) ← simpleParts n rest
      return ((ws, r :: rs), rest)
    | none, (_, .word w) :: rest => do
      let ((ws, rs), rest) ← simpleParts n rest
      return ((w :: ws, rs), rest)
    | none, _ => .ok (([], []), ts)

def redirect (line : Nat) (c : Command) (rs : List Redirection) : Command :=
  if rs.isEmpty then c else .redirected line c rs

/-- The words at the front. -/
def words : Tokens → List (List Char) × Tokens
  | (_, .word w) :: rest => let (ws, rest) := words rest; (w :: ws, rest)
  | ts => ([], ts)

/-- The patterns of an arm up to the bracket. -/
def patterns : Tokens → Except Misfit ((List (List Char)) × Tokens)
  | (_, .word w) :: (_, .operator "|") :: rest => do
    let (ps, rest) ← patterns rest
    return (w :: ps, rest)
  | (_, .word w) :: (_, .operator ")") :: rest => .ok ([w], rest)
  | ts => .error (misfit (if isEnding ts then ts else ts.drop 1) (some (quoted ")")))

/-! ### Commands -/

mutual

/-- Commands, each ended by a separator or by what ends the list; `mayEnd` tells that none have to come. -/
def list (n : Nat) (mayEnd : Bool) (ts : Tokens) : Except Misfit ((List Command) × Tokens) :=
  match n with
  | 0 => .error (misfit ts none)
  | n + 1 =>
    let ts := skipNewlines ts
    if isEnding ts || mayEnd && endsList ts then .ok ([], ts)
    else do
      let (c, ts) ← joined n ts
      if isOperator "&" ts then
        let (cs, ts) ← list n true (ts.drop 1)
        return (.background c :: cs, ts)
      else if isOperator ";" ts || skipNewlines ts != ts then
        let (cs, ts) ← list n true (ts.drop 1)
        return (c :: cs, ts)
      else return ([c], ts)

/-- Commands as one. -/
def block (n : Nat) (ts : Tokens) : Except Misfit (Command × Tokens) :=
  match n with
  | 0 => .error (misfit ts none)
  | n + 1 => (list n false ts).map fun (cs, ts) => (.sequence cs, ts)

/-- Pipelines with connectives between them. -/
def joined (n : Nat) (ts : Tokens) : Except Misfit (Command × Tokens) := do
  match n with
  | 0 => .error (misfit ts none)
  | n + 1 =>
    let (c, ts) ← pipeline n ts
    moreJoined n c ts

def moreJoined (n : Nat) (c : Command) (ts : Tokens) : Except Misfit (Command × Tokens) := do
  match n with
  | 0 => .error (misfit ts none)
  | n + 1 =>
    if isOperator "&&" ts then
      let (d, ts) ← pipeline n (skipNewlines (ts.drop 1))
      moreJoined n (.both c d) ts
    else if isOperator "||" ts then
      let (d, ts) ← pipeline n (skipNewlines (ts.drop 1))
      moreJoined n (.either c d) ts
    else return (c, ts)

def pipeline (n : Nat) (ts : Tokens) : Except Misfit (Command × Tokens) := do
  match n with
  | 0 => .error (misfit ts none)
  | n + 1 =>
    let negated := isWord "!" ts
    let (c, ts) ← plain n (if negated then ts.drop 1 else ts)
    let (c, ts) ← morePiped n c ts
    return (if negated then .negation c else c, ts)

def morePiped (n : Nat) (c : Command) (ts : Tokens) : Except Misfit (Command × Tokens) := do
  match n with
  | 0 => .error (misfit ts none)
  | n + 1 =>
    if isOperator "|" ts then
      let (d, ts) ← plain n (skipNewlines (ts.drop 1))
      morePiped n (.pipe c d) ts
    else return (c, ts)

/-- A command that is no chain of others. -/
def plain (n : Nat) (ts : Tokens) : Except Misfit (Command × Tokens) := do
  match n with
  | 0 => .error (misfit ts none)
  | n + 1 =>
    match ts with
    | [] => .error (misfit ts none)
    | (line, _) :: after =>
      if isOneOf reserved ts || isOperator "(" ts then
        let (c, ts) ← compound n line ts after
        let (rs, ts) ← redirections ts.length ts
        return (redirect line c rs, ts)
      else
        let ((words, rs), rest) ← simpleParts ts.length ts
        if words.isEmpty && rs.isEmpty then .error (misfit ts none)
        else if words.all (fun w => (assignment? w).isNone) && words.length = 1 && rs.isEmpty &&
            isOperator "(" rest then
          let rest ← expect ")" (rest.drop 1)
          let name := words.headD []
          if !isVariableName name || binding.contains (String.ofList name) then
            .error ⟨line, "Bad function name"⟩
          let (body, rest) ← plain n (skipNewlines rest)
          return (.definition name body, rest)
        else return (redirect line (.simple line words) rs, rest)

/-- A command that starts with a word of its own or a bracket; `after` follows that. -/
def compound (n : Nat) (line : Nat) (ts after : Tokens) : Except Misfit (Command × Tokens) := do
  match n with
  | 0 => .error (misfit ts none)
  | n + 1 =>
    if isOperator "(" ts then
      let (body, ts) ← block n after
      return (.apart body, ← expect ")" ts)
    else if isWord "\x7b" ts then
      let (body, ts) ← block n after
      return (body, ← expect "\x7d" ts)
    else if isWord "if" ts then condition n after
    else if isWord "while" ts || isWord "until" ts then
      let (test, rest) ← block n after
      let (body, rest) ← block n (← expect "do" rest)
      return (.again (isWord "while" ts) test body, ← expect "done" rest)
    else if isWord "for" ts then
      let (names, rest) := words (after.take 1)
      if !(names.head?.any isVariableName) then 
        .error { misfit after none with reason := "Bad for loop variable" }
      let rest := skipNewlines (rest ++ after.drop 1)
      let listed := isWord "in" rest
      let (values, rest) := if listed then words (rest.drop 1) else ([], rest)
      if listed && !isOperator ";" rest && skipNewlines rest == rest then .error (misfit rest none)
      let rest := skipNewlines (if isOperator ";" rest then rest.drop 1 else rest)
      let (body, rest) ← block n (← expect "do" rest)
      return (.each line (names.headD []) (if listed then some values else none) body, ← expect "done" rest)
    else if isWord "case" ts then
      match after with
      | (_, .word subject) :: rest =>
        let (arms, rest) ← arms n (← expect "in" (skipNewlines rest))
        return (.choice line subject arms, rest)
      | _ => .error (misfit after (some "word"))
    else .error (misfit ts none)

/-- A condition after its first word. -/
def condition (n : Nat) (ts : Tokens) : Except Misfit (Command × Tokens) := do
  match n with
  | 0 => .error (misfit ts none)
  | n + 1 =>
    let (test, ts) ← block n ts
    let (yes, ts) ← block n (← expect "then" ts)
    let (no, ts) ← otherwise n ts
    return (.condition test yes no, ts)

/-- What follows the body of a condition: further conditions, another body, or nothing. -/
def otherwise (n : Nat) (ts : Tokens) : Except Misfit (Command × Tokens) := do
  match n with
  | 0 => .error (misfit ts none)
  | n + 1 =>
    if isWord "elif" ts then condition n (ts.drop 1)
    else if isWord "else" ts then
      let (no, ts) ← block n (ts.drop 1)
      return (no, ← expect "fi" ts)
    else return (.sequence [], ← expect "fi" ts)

def arms (n : Nat) (ts : Tokens) : Except Misfit ((List (List (List Char) × Command)) × Tokens) := do
  match n with
  | 0 => .error (misfit ts none)
  | n + 1 =>
    let ts := skipNewlines ts
    if isWord "esac" ts then return ([], ts.drop 1)
    else
      let (ps, ts) ← patterns (if isOperator "(" ts then ts.drop 1 else ts)
      let (body, ts) ← list n true ts
      let ts := skipNewlines ts
      let (more, ts) ← if isWord "esac" ts then .ok ([], ts.drop 1) else arms n (← expect ";;" ts)
      return ((ps, .sequence body) :: more, ts)

end

/-- How deep the steps of reading these tokens may be nested. -/
def depth (ts : Tokens) : Nat := 8 * ts.length + 8

/-- Goes on line by line; `line` holds the commands of the current one, in reverse. -/
def lines (depth : Nat) : Nat → List Command → Tokens → Script
  | 0, line, _ => ⟨line.reverse, none⟩
  | n + 1, line, ts =>
    match ts with
    | [] | (_, .ending) :: _ => ⟨line.reverse, none⟩
    | (_, .newline) :: rest =>
      let more := lines depth n [] rest
      { more with commands := line.reverse ++ more.commands }
    | _ =>
      match joined depth ts with
      | .error m => ⟨[], some m⟩
      | .ok (c, rest) =>
        if isOperator "&" rest then lines depth n (.background c :: line) (rest.drop 1)
        else if isOperator ";" rest then lines depth n (c :: line) (rest.drop 1)
        else if isEnding rest || skipNewlines rest != rest then lines depth n (c :: line) rest
        else ⟨[], some (misfit rest none)⟩

end Tokens

namespace Script

/-- Reads a script that starts in this line. -/
def read (line : Nat) (s : List Char) : Script :=
  let ts := tokens line s
  Tokens.lines (Tokens.depth ts) (2 * ts.length + 2) [] ts

/-- Reads a script that stands in another one, between brackets or between ticks. -/
def readInner (ticked : Bool) (line : Nat) (s : List Char) : Except Misfit (List Command) := do
  let ts := (tokens line s).map fun (line, t) => (line, if t == .ending && !ticked then .operator ")" else t)
  let (commands, rest) ← Tokens.list (Tokens.depth ts) true ts
  if !ticked then discard (Tokens.expect ")" rest)
  return commands

end Script

end InlineImpact.Shell
