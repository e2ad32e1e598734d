/-!
Scripts: commands joined by separators and connectives, conditions, loops and functions, each with
redirections.
-/
namespace InlineImpact.Shell

inductive Direction where
  | read | write | append
  /-- The same place as another file. -/
  | same
  /-- From a document in the script. -/
  | document (quoted : Bool)
  deriving DecidableEq, Repr

structure Redirection where
  descriptor : Nat
  direction : Direction
  target : List Char

inductive Command where
  | simple (line : Nat) (words : List (List Char))
  | redirected (line : Nat) (body : Command) (redirections : List Redirection)
  | sequence (parts : List Command)
  /-- The second part follows if the first one succeeds. -/
  | both (a b : Command)
  /-- The second part follows if the first one fails. -/
  | either (a b : Command)
  | pipe (a b : Command)
  | negation (body : Command)
  | condition (test yes no : Command)
  /-- Runs again as long as the test comes out as wanted. -/
  | again (wanted : Bool) (test body : Command)
  | each (line : Nat) (name : List Char) (words : Option (List (List Char))) (body : Command)
  | choice (line : Nat) (subject : List Char) (arms : List (List (List Char) × Command))
  /-- In a process of its own. -/
  | apart (body : Command)
  /-- In a process of its own that nothing waits for. -/
  | background (body : Command)
  /-- Gives a name to a command. -/
  | definition (name : List Char) (body : Command)

instance : Inhabited Command := ⟨.sequence []⟩

def isVariableName (s : List Char) : Bool :=
  match s with
  | [] => false
  | c :: rest => (c.isAlpha || c == '_') && rest.all fun c => c.isAlphanum || c == '_'

/-- The name and the value of an assignment. -/
def assignment? (word : List Char) : Option (List Char × List Char) :=
  let name := word.takeWhile (· != '=')
  if isVariableName name && name.length < word.length then some (name, word.drop (name.length + 1))
  else none

/-- The commands that no function takes the place of. Assignments before them stay, and the shell ends
if their redirections fail. -/
def binding : List String := [":", ".", "break", "continue", "eval", "exec", "exit", "export", "readonly",
  "return", "set", "shift", "times", "trap", "unset"]

/-- A place in a script where it cannot be read any further, and what is said of it. -/
structure Misfit where
  line : Nat
  reason : String
  deriving DecidableEq, Repr

/-- What a script comes to: its commands up to the first line that cannot be read. -/
structure Script where
  commands : List Command
  stop : Option Misfit := none

end InlineImpact.Shell
