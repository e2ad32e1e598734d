import InlineImpact.Shell.Pattern
import InlineImpact.Shell.State

/-!
Fields of an expanded word: it is cut where separators were put in outside of quotes, and a field that
is a pattern stands for the files that fit it, if there are any.
-/
namespace InlineImpact.Shell

/-- A character of an expanded word. -/
inductive Mark where
  /-- Belongs to its field, and stands for itself in a pattern. -/
  | solid (c : Char)
  /-- Belongs to its field. -/
  | plain (c : Char)
  /-- Ends a field if it is a separator. -/
  | loose (c : Char)
  | quotes
  /-- Ends a field. -/
  | cut

namespace Mark

def ofText (quoted : Bool) (s : String) : List Mark :=
  if quoted then s.toList.map .solid else s.toList.map .loose

/-- Text of a word that is put in is cut like the value of a parameter. -/
def loosen : Mark → Mark
  | .plain c => .loose c
  | m => m

/-- The character, and whether it is protected. -/
def char : Mark → List (Bool × Char)
  | .solid c => [(true, c)]
  | .plain c | .loose c => [(false, c)]
  | .quotes => []
  | .cut => [(false, ' ')]

/-- The text without any cuts. -/
def whole (ms : List Mark) : String := String.ofList (ms.flatMap fun m => m.char.map Prod.snd)

/-- The text as a pattern in which protected characters stand for themselves. -/
def globs (ms : List Mark) : List Glob := Glob.read (ms.flatMap char)

def isBlank (c : Char) : Bool := c == ' ' || c == '\t' || c == '\n'

/-- What is being gathered when marks are cut into fields. -/
structure Cutting where
  done : List (List (Bool × Char)) := []
  /-- The open field, in reverse. -/
  field : Option (List (Bool × Char)) := none
  /-- Blanks ended the last field, and a separator may still belong to them. -/
  afterBlank : Bool := false

namespace Cutting

def close (c : Cutting) (afterBlank : Bool) : Cutting :=
  match c.field with
  | some f => ⟨c.done ++ [f.reverse], none, afterBlank⟩
  | none => c

/-- A separator that is no blank ends a field even if there is none. -/
def separate (c : Cutting) : Cutting :=
  match c.field, c.afterBlank with
  | none, true => { c with afterBlank := false }
  | none, false => { c with done := c.done ++ [[]] }
  | some _, _ => c.close false

def add (c : Cutting) (m : Bool × Char) : Cutting :=
  { c with field := some (m :: c.field.getD []), afterBlank := false }

def take (separators : List Char) (c : Cutting) (m : Mark) : Cutting :=
  match m with
  | .solid x => c.add (true, x)
  | .plain x => c.add (false, x)
  | .loose x =>
    if !separators.contains x then c.add (false, x)
    else if isBlank x then c.close true
    else c.separate
  | .quotes => { c with field := some (c.field.getD []) }
  | .cut => c.close false

end Cutting

def fields (separators : List Char) (ms : List Mark) : List (List (Bool × Char)) :=
  ((ms.foldl (Cutting.take separators) {}).close false).done

end Mark

/-! ### Files by pattern -/

/-- The paths that fit a pattern part by part, after the text `before`. A name that starts with a dot is
only meant by a pattern that does. -/
def matching (ws : Workspace) (before : String) (place : Place) : List (List Glob) → List String
  | [] => []
  | part :: rest =>
    let fits (name : String) : Bool :=
      Glob.accepts part name.toList && (name.startsWith "." → part.head? = some (.char '.'))
    let names : List String :=
      if Glob.isGeneral part then ((ws.namesIn place).filter fits).mergeSort fun a b => !(b < a)
      else [String.ofList (part.filterMap fun g => match g with
        | .char c => some c
        | _ => none)]
    names.flatMap fun name =>
      let place := Workspace.next place name
      if !rest.isEmpty then matching ws (before ++ name ++ "/") place rest
      else if (ws.entries.get? place).isSome then [before ++ name]
      else []

/-- The texts that a field stands for. -/
def expandPath (ws : Workspace) (field : List (Bool × Char)) : List String :=
  let text := String.ofList (field.map Prod.snd)
  if !Glob.isGeneral (Glob.read field) then [text]
  else
    let found := match Text.splitAtEach (false, '/') (field.map fun (q, c) => (q && c ≠ '/', c)) with
      | [] :: parts => matching ws "/" [] (parts.map Glob.read)
      | parts => matching ws "" ws.here (parts.map Glob.read)
    if found.isEmpty then [text] else found

end InlineImpact.Shell
