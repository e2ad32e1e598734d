/-!
Patterns over whole texts, and regular expressions that may start anywhere in a line.
-/
namespace InlineImpact.Shell

/-- A character of a pattern: itself, any one character, one of some ranges, or any run of characters. -/
inductive Glob where
  | char (c : Char)
  | one
  | among (negated : Bool) (ranges : List (Char × Char))
  | many
  deriving DecidableEq, Repr

namespace Glob

/-- The classes of characters that have names. -/
def classes : List (String × List (Char × Char)) := [
  ("alnum", [('0', '9'), ('A', 'Z'), ('a', 'z')]), ("alpha", [('A', 'Z'), ('a', 'z')]),
  ("blank", [(' ', ' '), ('\t', '\t')]), ("cntrl", [('\x00', '\x1f'), ('\x7f', '\x7f')]),
  ("digit", [('0', '9')]), ("graph", [('!', '~')]), ("lower", [('a', 'z')]), ("print", [(' ', '~')]),
  ("punct", [('!', '/'), (':', '@'), ('[', '\x60'), ('\x7b', '~')]), ("space", [(' ', ' '), ('\t', '\r')]),
  ("upper", [('A', 'Z')]), ("xdigit", [('0', '9'), ('A', 'F'), ('a', 'f')])]

/-- The class whose name stands at the front, and the characters that name it. -/
def class? (s : List (Bool × Char)) : Option (List (Char × Char) × Nat) :=
  classes.findSome? fun (name, ranges) =>
    let written := "[:".toList ++ name.toList ++ ":]".toList
    if (written.map (false, ·)).isPrefixOf s then some (ranges, written.length) else none

/-- The ranges that stand in brackets, and what follows the bracket that closes, which is never the first
character. A dash at the front or at the end stands for itself. -/
def ranges? : Nat → List (Bool × Char) → Option (List (Char × Char) × List (Bool × Char))
  | 0, _ | _, [] => none
  | n + 1, (q, a) :: rest =>
    let andThen (found : List (Char × Char)) (rest : List (Bool × Char)) :
        Option (List (Char × Char) × List (Bool × Char)) :=
      match rest with
      | (false, ']') :: after => some (found, after)
      | _ => (ranges? n rest).map fun (more, after) => (found ++ more, after)
    match class? ((q, a) :: rest), rest with
    | some (found, length), _ => andThen found (rest.drop (length - 1))
    | none, (false, '-') :: (false, ']') :: _ => andThen [(a, a)] rest
    | none, (false, '-') :: (_, b) :: more => andThen [(a, b)] more
    | none, _ => andThen [(a, a)] rest

/-- One character of those that stand in brackets, or of all others after an exclamation mark. -/
def bracket? (s : List (Bool × Char)) : Option (Glob × List (Bool × Char)) :=
  let negated := s.head? == some (false, '!')
  let body := if negated then s.drop 1 else s
  (ranges? (body.length + 1) body).map fun (found, after) => (.among negated found, after)

/-- Reads a pattern; quoted characters stand for themselves. -/
def read (s : List (Bool × Char)) : List Glob := go (s.length + 1) s
where
  go : Nat → List (Bool × Char) → List Glob
    | 0, _ | _, [] => []
    | n + 1, (true, c) :: rest => .char c :: go n rest
    | n + 1, (false, c) :: rest =>
      if c == '*' then .many :: go n rest
      else if c == '?' then .one :: go n rest
      else match if c == '[' then bracket? rest else none with
        | some (glob, after) => glob :: go n after
        | none => .char c :: go n rest

/-- Some character of the pattern stands for more than itself. -/
def isGeneral (ps : List Glob) : Bool := ps.any fun p => !(p matches .char _)

def accepts : List Glob → List Char → Bool
  | [], s => s.isEmpty
  | .char _ :: _, [] | .one :: _, [] | .among _ _ :: _, [] => false
  | .char c :: ps, d :: s => c == d && accepts ps s
  | .one :: ps, _ :: s => accepts ps s
  | .among negated rs :: ps, d :: s =>
    (rs.any fun (a, b) => a ≤ d && d ≤ b) != negated && accepts ps s
  | .many :: ps, [] => accepts ps []
  | .many :: ps, d :: s => accepts ps (d :: s) || accepts (.many :: ps) s
termination_by ps s => ps.length + s.length

/-- The text without a front that the pattern accepts: the shortest one or the longest one. -/
def dropFront (longest : Bool) (ps : List Glob) (s : List Char) : List Char :=
  let cuts := List.range (s.length + 1)
  let cuts := if longest then cuts.reverse else cuts
  match cuts.find? fun n => accepts ps (s.take n) with
  | some n => s.drop n
  | none => s

/-- The text without an end that the pattern accepts. -/
def dropBack (longest : Bool) (ps : List Glob) (s : List Char) : List Char :=
  (dropFront longest ps.reverse s.reverse).reverse

end Glob

/-- A piece of a regular expression. -/
inductive Piece where
  | char (c : Char)
  | any
  | front
  | back
  | many (p : Option Char)
  deriving DecidableEq, Repr

namespace Piece

/-- Reads a basic regular expression. A star repeats the piece before it; at the front it is plain. -/
def read (first : Bool) : List Char → List Piece
  | [] => []
  | ['$'] => [.back]
  | ['\\'] => [.char '\\']
  | '\\' :: c :: '*' :: rest => .many (some c) :: read false rest
  | '\\' :: c :: rest => .char c :: read false rest
  | '.' :: '*' :: rest => .many none :: read false rest
  | '.' :: rest => .any :: read false rest
  | '^' :: rest => (if first then .front else .char '^') :: read false rest
  | c :: '*' :: rest => .many (some c) :: read false rest
  | c :: rest => .char c :: read false rest

/-- The pieces fit at the front of `s`; `start` tells that the line starts here. -/
def fits (start : Bool) : List Piece → List Char → Bool
  | [], _ => true
  | .front :: ps, s => start && fits start ps s
  | .back :: ps, s => s.isEmpty && fits start ps s
  | .many _ :: ps, [] => fits start ps []
  | .char _ :: _, [] | .any :: _, [] => false
  | .char c :: ps, d :: s => c == d && fits false ps s
  | .any :: ps, _ :: s => fits false ps s
  | .many p :: ps, d :: s =>
    fits start ps (d :: s) || (p.all (· == d) && fits false (.many p :: ps) s)
termination_by ps s => ps.length + s.length

def occurs (start : Bool) (ps : List Piece) : List Char → Bool
  | [] => fits start ps []
  | c :: s => fits start ps (c :: s) || occurs false ps s

end Piece

end InlineImpact.Shell
