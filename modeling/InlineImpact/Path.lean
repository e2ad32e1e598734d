/-!
Paths with slashes. `Path.join` and `Path.normalize` work on their text; a `PurePath` is a path cut
into its parts, without empty parts and parts that are a single dot.
-/
namespace InlineImpact

namespace Path

/-- The second path seen from the first; an absolute second path stands for itself. -/
def join (a b : String) : String :=
  if b.startsWith "/" then b
  else if a.isEmpty || a.endsWith "/" then a ++ b
  else a ++ "/" ++ b

/-- The slashes at the front that count: exactly two stay two, any other number is one. -/
def leadingSlashes (s : List Char) : Nat :=
  match s.takeWhile (· == '/') with
  | [] => 0
  | [_, _] => 2
  | _ => 1

def slashes (n : Nat) : String := String.ofList (List.replicate n '/')

/-- Adds a part to a path, kept in reverse; going up takes the last part away where there is one. -/
def pushPart (rooted : Bool) (parts : List String) (part : String) : List String :=
  if part == "" || part == "." then parts
  else if part != ".." then part :: parts
  else match parts with
    | [] => if rooted then [] else [".."]
    | last :: rest => if last == ".." then ".." :: parts else rest

/-- The path without empty parts, dots, and parts that are left again. It ends before a character that
no path can hold. -/
def normalize (p : String) : String :=
  let lead := leadingSlashes p.toList
  let parts := ((p.splitOn "/").foldl (pushPart (lead > 0)) []).reverse
  let text := (slashes lead ++ "/".intercalate parts).toList.takeWhile (· ≠ '\x00')
  if text.isEmpty then "." else String.ofList text

/-- The path without slashes at its end, unless it has nothing else. -/
def trimSlashes (p : String) : String :=
  let kept := (p.toList.reverse.dropWhile (· == '/')).reverse
  if kept.isEmpty then "/" else String.ofList kept

/-- The path seen from the root. -/
def absolute (cwd p : String) : String := normalize (join cwd p)

/-- The part before the last slash; slashes at its end are dropped unless it is nothing else. -/
def directory (p : String) : String :=
  let head := (p.toList.reverse.dropWhile (· != '/')).reverse
  if head.all (· == '/') then String.ofList head
  else String.ofList (head.reverse.dropWhile (· == '/')).reverse

/-- The path without the last ending of its last part. Dots at the front of a name start no ending. -/
def withoutEnding (p : String) : String :=
  let cs := p.toList
  let name := (cs.reverse.takeWhile (· != '/')).reverse
  let lead := name.takeWhile (· == '.')
  let body := name.dropWhile (· == '.')
  if body.contains '.' then
    let kept := ((body.reverse.dropWhile (· != '.')).drop 1).reverse
    String.ofList (cs.take (cs.length - name.length) ++ lead ++ kept)
  else p

end Path

structure PurePath where
  /-- No slash, one, or two. -/
  root : String
  parts : List String
  deriving DecidableEq, Repr

namespace PurePath

def ofText (p : String) : PurePath :=
  ⟨Path.slashes (Path.leadingSlashes p.toList), (p.splitOn "/").filter fun s => s != "" && s != "."⟩

def isAbsolute (p : PurePath) : Bool := !p.root.isEmpty

def text (p : PurePath) : String :=
  let s := p.root ++ "/".intercalate p.parts
  if s.isEmpty then "." else s

/-- The second path seen from the first. -/
def join (p q : PurePath) : PurePath := if q.isAbsolute then q else ⟨p.root, p.parts ++ q.parts⟩

def parent (p : PurePath) : PurePath := { p with parts := p.parts.dropLast }

end PurePath

end InlineImpact
