import InlineImpact.Shell.State

/-!
Tools: programs that every host has. A tool gets its arguments and what the shell knows, and answers with
a status, with what it writes, and with the files as it leaves them.
-/
namespace InlineImpact.Shell

/-- What a tool comes to. -/
structure Report where
  status : Int := 0
  out : ByteArray := ByteArray.empty
  err : ByteArray := ByteArray.empty
  /-- What it says comes before what it puts out. -/
  saidFirst : Bool := false
  workspace : Workspace
  /-- What is left of the input, if the tool has read from it. -/
  input : Option ByteArray := none
  elapsed : Float := 0.0

abbrev Tool := List String → State → Report

namespace Tool

def succeed (st : State) (out : String := "") : Report :=
  { out := out.toUTF8, workspace := st.workspace }

def decide (b : Bool) (st : State) : Report :=
  { status := if b then 0 else 1, workspace := st.workspace }

def refuse (st : State) (status : Int) (message : String) : Report :=
  { status, err := (message ++ "\n").toUTF8, workspace := st.workspace }

/-- What a tool that is part of the shell says. -/
def complain (st : State) (status : Int) (words : List String) : Report :=
  refuse st status (st.name ++ ": " ++ toString st.line ++ ": " ++ ": ".intercalate words)

def textOf (bytes : ByteArray) : String :=
  (String.fromUTF8? bytes).getD (Text.decodeLossy bytes)

/-- Lines without their ends; a text that ends with a line end has no further line. -/
def linesOf (bytes : ByteArray) : List (List Char) :=
  let pieces := Text.splitAtEach '\n' (textOf bytes).toList
  if pieces.getLast? == some [] then pieces.dropLast else pieces

def ofLines (lines : List (List Char)) : ByteArray :=
  (String.ofList (lines.flatMap (· ++ ['\n']))).toUTF8

/-- The letters of the options, and the other words. Nothing is an option after two dashes. -/
def splitOptions : List String → List Char × List String
  | [] => ([], [])
  | "--" :: rest => ([], rest)
  | w :: rest =>
    let (letters, words) := splitOptions rest
    if w.startsWith "-" && w ≠ "-" then (w.toList.drop 1 ++ letters, words) else (letters, w :: words)

/-- The files named, or the input, one after the other; `wording` says what is wrong with one. -/
def readAll (wording : String → StorageError → String) (status : Int) (st : State) :
    List String → Report
  | [] => succeed st
  | path :: rest =>
    let fromInput := path == "-"
    let later := readAll wording status (if fromInput then { st with input := ByteArray.empty } else st) rest
    match if fromInput then .ok st.input else st.workspace.read path with
    | .ok bytes =>
      { later with out := bytes ++ later.out
                   input := if fromInput then some ByteArray.empty else later.input }
    | .error fault =>
      { later with status, err := (wording path fault.error ++ "\n").toUTF8 ++ later.err }

def plainWording (name path : String) (e : StorageError) : String :=
  name ++ ": " ++ path ++ ": " ++ e.reason

def orInput (files : List String) : List String := if files.isEmpty then ["-"] else files

end Tool

end InlineImpact.Shell
