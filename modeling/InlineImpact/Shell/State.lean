import InlineImpact.Shell.Script
import InlineImpact.Text.Utf8
import InlineImpact.Workspace

/-!
What a shell knows while it runs a script: the files, its variables and functions, where its output
goes and what is left of its input.
-/
namespace InlineImpact.Shell

/-- Where output goes. -/
inductive Sink where
  | nowhere
  /-- Kept for the command that asked for it. -/
  | kept
  | file (path : String)

structure State where
  /-- The files; relative paths start where the shell is. -/
  workspace : Workspace
  bindings : Keyed String String
  /-- The variables that programs get to see. -/
  exported : List String
  /-- The variables that keep their values. -/
  constants : List String := []
  functions : Keyed String Command := []
  /-- What is done when the shell ends or gets a signal, by the name of the event. -/
  traps : Keyed String String := []
  /-- The name that the script was started by. -/
  name : String
  arguments : List String
  /-- The command whose script runs, if it is one that the shell reads in itself. -/
  speaker : Option String := none
  /-- The line of the command that runs. -/
  line : Nat := 0
  status : Int := 0
  /-- The status of the last substituted command of a word. -/
  substituted : Option Int := none
  /-- What went wrong while a word was expanded; the shell ends of it. -/
  fault : Option (List String) := none
  out : Sink
  err : Sink
  /-- Where the output of further descriptors goes. -/
  further : Keyed Nat Sink := []
  input : ByteArray := ByteArray.empty
  kept : ByteArray := ByteArray.empty
  /-- Seconds since the start, and how many there may be. -/
  elapsed : Float := 0.0
  limit : Float
  /-- When the last command in the background ends, and what it comes to. -/
  background : Float := 0.0
  backgroundStatus : Int := 0
  /-- The letters of the options that are set. -/
  options : List Char := []
  /-- Someone looks at the status, so a failure does not end the shell. -/
  tested : Bool := false
  /-- How many loops the command is in. -/
  loops : Nat := 0
  /-- What the local variables of the function were before; none outside of functions. -/
  saved : Option (List (String × Option String)) := none

namespace State

def emit (st : State) (sink : Sink) (bytes : ByteArray) : State :=
  if bytes.isEmpty then st
  else match sink with
    | .nowhere => st
    | .kept => { st with kept := st.kept ++ bytes }
    | .file path =>
      match st.workspace.append path bytes with
      | .ok ws => { st with workspace := ws }
      | .error _ => st

/-- Says what went wrong, and where. -/
def complain (st : State) (words : List String) : State :=
  st.emit st.err (st.name ++ ": " ++ toString st.line ++ ": " ++ ": ".intercalate words ++ "\n").toUTF8

/-- Says what went wrong in a script, and where. -/
def report (st : State) (words : List String) : State := st.complain (st.speaker.toList ++ words)

/-- The number that stands for the shell's own process. -/
def processNumber : String := "100"

/-- The number that stands for the last process in the background. -/
def backgroundNumber : String := "101"

/-- The value of a parameter: a variable, an argument, or one of the special ones. -/
def parameter? (st : State) (name : String) : Option String :=
  match name with
  | "#" => some (toString st.arguments.length)
  | "?" => some (toString st.status)
  | "$" => some processNumber
  | "!" => some backgroundNumber
  | "-" => some (String.ofList st.options)
  | "@" | "*" => if st.arguments.isEmpty then none else some (" ".intercalate st.arguments)
  | "0" => some st.name
  | "PWD" => st.bindings.get? name <|> some st.workspace.hereText
  | _ =>
    match name.toNat? with
    | some n => st.arguments[n - 1]?
    | none => st.bindings.get? name

/-- The state with a fault, unless there was one before. -/
def fail (st : State) (words : List String) : State :=
  { st with fault := st.fault.or (some words) }

/-- Gives a variable a value, or none. -/
def restore (st : State) (name : String) (value : Option String) : State :=
  { st with bindings := match value with
      | some v => st.bindings.put name v
      | none => st.bindings.filter (·.1 ≠ name) }

/-- Gives a variable another value; it is a fault if the variable keeps its value. -/
def change (st : State) (name : String) (value : Option String) : State :=
  if st.constants.contains name then st.fail [name, "is read only"] else st.restore name value

def assign (st : State) (name value : String) : State := st.change name (some value)

/-- What programs get to see of the variables. -/
def environment (st : State) : Keyed String String :=
  st.bindings.filter fun (k, _) => st.exported.contains k

/-- The characters that separate fields. -/
def separators (st : State) : List Char := ((st.bindings.get? "IFS").getD " \t\n").toList

end State

end InlineImpact.Shell
