import InlineImpact.Text.Lines

/-!
The tokens of a script: words, kept as they are written, and operators. A word ends at a blank or an
operator outside of quotes and of substitutions. A document that stands in the script itself starts
after the line that asks for it.
-/
namespace InlineImpact.Shell

inductive Token where
  | word (text : List Char)
  /-- A separator, a connective, a bracket or the sign of a redirection. -/
  | operator (text : String)
  /-- The number of a file right before the sign of a redirection. -/
  | descriptor (n : Nat)
  /-- The lines of a document; quoted ones stand for themselves. -/
  | document (quoted : Bool) (text : List Char)
  | newline
  | ending
  /-- A word that does not end, and what is said of it. -/
  | broken (reason : String)
  deriving DecidableEq, Repr

/-- What a character of a word stands in. -/
inductive Nesting where
  | single | double | parens | braces | ticks
  deriving DecidableEq, Repr

def isBreak (c : Char) : Bool := " \t\n;&|()<>".toList.contains c

/-- What opens at a character; a double quotation protects from single quotes. -/
def opened? (inside : Option Nesting) (c : Char) (next : Option Char) : Option Nesting :=
  if c == '$' && next == some '(' then some .parens
  else if c == '$' && next == some '{' then some .braces
  else if c == '\x60' then some .ticks
  else if c == '\'' && inside != some .double then some .single
  else if c == '"' then some .double
  else none

def closes (c : Char) : Nesting → Bool
  | .single => c == '\''
  | .double => c == '"'
  | .parens => c == ')'
  | .braces => c == '}'
  | .ticks => c == '\x60'

/-- What is said of a word in which this is open at its end. Two brackets are those of an expression. -/
def reason : List Nesting → String
  | .single :: _ | .double :: _ => "Unterminated quoted string"
  | .parens :: .parens :: _ => "Missing '))'"
  | .parens :: _ => "end of file unexpected (expecting \")\")"
  | .braces :: _ => "Missing '\x7d'"
  | .ticks :: _ => "EOF in backquote substitution"
  | [] => ""

/-- A word, what follows it, and what is still open if the text ends in it. -/
structure Cut where
  word : List Char
  rest : List Char
  opened : List Nesting

def Cut.push (c : Char) (cut : Cut) : Cut := { cut with word := c :: cut.word }

/-- The text up to where a word ends and what follows it. With `inner` it already ends where the nesting
does. -/
def splitWord (inner : Bool) (nesting : List Nesting) : List Char → Cut
  | [] => ⟨[], [], nesting⟩
  | [c] =>
    match nesting with
    | [] => if inner || isBreak c then ⟨[], [c], []⟩ else ⟨[c], [], (opened? none c none).toList⟩
    | top :: outer =>
      if closes c top then ⟨[c], [], outer⟩ else ⟨[c], [], (opened? (some top) c none).toList ++ nesting⟩
  | c :: d :: rest =>
    match nesting with
    | .single :: outer => (splitWord inner (if c == '\'' then outer else nesting) (d :: rest)).push c
    | top :: outer =>
      if c == '\\' then ((splitWord inner nesting rest).push d).push c
      else if closes c top then (splitWord inner outer (d :: rest)).push c
      else match opened? (some top) c (some d) with
        | some .parens => ((splitWord inner (.parens :: nesting) rest).push d).push c
        | some .braces => ((splitWord inner (.braces :: nesting) rest).push d).push c
        | some n => (splitWord inner (n :: nesting) (d :: rest)).push c
        | none =>
          (splitWord inner (if c == '(' && top == .parens then .parens :: nesting else nesting)
            (d :: rest)).push c
    | [] =>
      if inner || isBreak c then ⟨[], c :: d :: rest, []⟩
      else if c == '\\' then ((splitWord inner [] rest).push d).push c
      else match opened? none c (some d) with
        | some .parens => ((splitWord inner [.parens] rest).push d).push c
        | some .braces => ((splitWord inner [.braces] rest).push d).push c
        | some n => (splitWord inner [n] (d :: rest)).push c
        | none => (splitWord inner [] (d :: rest)).push c

/-- The operators, longer ones before those they begin with. -/
def operators : List String :=
  ["<<-", "&&", "||", ";;", ">>", ">&", ">|", "<&", "<<", ";", "&", "|", "(", ")", "<", ">"]

def operator? (s : List Char) : Option String :=
  operators.find? fun op => op.toList.isPrefixOf s

/-- A number that a redirection follows without a gap names a file. -/
def ofWord (word after : List Char) : Token :=
  if word.all Char.isDigit && (after.head? == some '<' || after.head? == some '>') then
    .descriptor (word.foldl (fun n c => 10 * n + (c.toNat - 48)) 0)
  else .word word

/-! ### Documents -/

/-- A document that the rest of a line asks for. -/
structure Request where
  /-- Tabs at the front of its lines do not count. -/
  indented : Bool
  /-- The line that ends it, as it is written. -/
  mark : List Char

namespace Request

def isQuoted (r : Request) : Bool := r.mark.any fun c => c == '\'' || c == '"' || c == '\\'

def line (r : Request) : List Char := r.mark.filter fun c => c ≠ '\'' && c ≠ '"' && c ≠ '\\'

/-- A line as it counts in the document. -/
def trimmed (r : Request) (s : List Char) : List Char :=
  if r.indented then s.dropWhile (· == '\t') else s

/-- The lines up to the one that ends the document, and what follows that; at most `n` lines. -/
def body (r : Request) : Nat → List Char → List Char × List Char
  | 0, s => ([], s)
  | n + 1, s =>
    let whole := s.takeWhile (· != '\n')
    let rest := s.drop (whole.length + 1)
    if s.isEmpty || r.trimmed whole == r.line then ([], rest)
    else
      let more := r.body n rest
      (r.trimmed whole ++ '\n' :: more.1, more.2)

theorem length_body_le (r : Request) (n : Nat) (s : List Char) : (r.body n s).2.length ≤ s.length := by
  induction n generalizing s with
  | zero => exact Nat.le_refl _
  | succ n ih =>
    have h := ih (s.drop ((s.takeWhile (· != '\n')).length + 1))
    simp only [List.length_drop] at h
    simp only [body]
    split
    · simp only [List.length_drop]
      omega
    · exact Nat.le_trans h (Nat.sub_le _ _)

/-- The documents that a line asks for, in order, and what follows them. -/
def bodies (line : Nat) : List Request → List Char → List (Nat × Token) × List Char
  | [], s => ([], s)
  | r :: rs, s =>
    let first := r.body (s.length + 1) s
    let more := bodies line rs first.2
    ((line, .document r.isQuoted first.1) :: more.1, more.2)

theorem length_bodies_le (line : Nat) (rs : List Request) (s : List Char) :
    (bodies line rs s).2.length ≤ s.length := by
  induction rs generalizing s with
  | nil => exact Nat.le_refl _
  | cons r rs ih =>
    simp only [bodies]
    exact Nat.le_trans (ih _) (length_body_le r _ s)

end Request

/-- The tokens of a script, each with its line; the last one is the ending, or a word that does not end. A
comment goes to the end of its line. `asked` holds the documents that the line has asked for, and `asks`
whether the next word ends one. -/
def rawTokens (line : Nat) (asked : List Request) (asks : Option Bool) (s : List Char) :
    List (Nat × Token) :=
  match s with
  | [] => [(line, .ending)]
  | '\\' :: '\n' :: rest => rawTokens (line + 1) asked asks rest
  | '\n' :: rest =>
    let lines := (rest.length - (Request.bodies line asked rest).2.length)
    (Request.bodies line asked rest).1 ++
      (line, .newline) :: rawTokens (line + 1 + (rest.take lines).count '\n') [] none
        (Request.bodies line asked rest).2
  | '#' :: rest => rawTokens line asked none (rest.dropWhile (· != '\n'))
  | c :: rest =>
    if c == ' ' || c == '\t' then rawTokens line asked asks rest
    else match operator? (c :: rest) with
      | some op =>
        let asks := if op == "<<" then some false else if op == "<<-" then some true else none
        (line, .operator op) :: rawTokens line asked asks (rest.drop (op.length - 1))
      | none =>
        match splitWord false [] (c :: rest) with
        | ⟨word, after, opened⟩ =>
          let asked := asked ++ (asks.map fun indented => ⟨indented, word⟩).toList
          let last := line + word.count '\n'
          match opened with
          | _ :: _ => [(last, .broken (reason opened))]
          | [] =>
            if after.length ≤ rest.length then
              (line, ofWord word after) :: rawTokens last asked none after
            else [(last, .ending)]
termination_by s.length
decreasing_by
  all_goals simp only [List.length_drop, List.length_cons]
  all_goals (try have := (List.dropWhile_sublist (fun x => x != '\n') (l := rest)).length_le)
  all_goals (try have := Request.length_bodies_le line asked rest)
  all_goals omega

/-- Puts the documents in the places of the words that ask for them. -/
def placeDocuments (documents : List Token) : List (Nat × Token) → List (Nat × Token)
  | [] => []
  | (_, .document _ _) :: rest => placeDocuments documents rest
  | (line, .operator op) :: (next, .word w) :: rest =>
    if op.startsWith "<<" then
      (line, .operator "<<") :: (line, documents.headD (.document false [])) ::
        placeDocuments (documents.drop 1) rest
    else (line, .operator op) :: placeDocuments documents ((next, .word w) :: rest)
  | t :: rest => t :: placeDocuments documents rest

/-- The tokens of a script that starts in this line. -/
def tokens (line : Nat) (s : List Char) : List (Nat × Token) :=
  let ts := rawTokens line [] none s
  placeDocuments ((ts.map Prod.snd).filter fun t => t matches .document _ _) ts

end InlineImpact.Shell
