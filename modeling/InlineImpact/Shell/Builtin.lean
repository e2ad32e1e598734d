import InlineImpact.Shell.Field
import InlineImpact.Shell.Program
import InlineImpact.Shell.Step

/-!
Commands that change the shell itself: its place, its variables, its options and its course.
-/
namespace InlineImpact.Shell

open Step (proceed finish abort)

namespace Builtin

/-! ### The course of the shell -/

/-- The status that a command leaves the shell with. -/
def withStatus (name : String) (leave : State → Int → Step) (args : List String) (st : State) : Step :=
  match args with
  | [] => leave st st.status
  | a :: _ =>
    match a.toNat? with
    | some n => leave st (n % 256 : Nat)
    | none => abort st [name, "Illegal number: " ++ a]

def exit (args : List String) (st : State) : Step := withStatus "exit" finish args st

def leaveFunction (args : List String) (st : State) : Step :=
  withStatus "return" (fun st status => (some .returned, { st with status })) args st

/-- Leaves loops, as many as there are at most. -/
def leave (name : String) (again : Bool) (args : List String) (st : State) : Step :=
  match args.head?.map String.toNat? with
  | some none | some (some 0) => abort st [name, "Illegal number: " ++ args.headD ""]
  | wanted =>
    let n := min ((wanted.bind id).getD 1) st.loops
    if n = 0 then proceed st 0 else (some (.left n again), { st with status := 0 })

def shift (args : List String) (st : State) : Step :=
  let n := (args.head?.bind String.toNat?).getD 1
  if st.arguments.length < n then abort st ["shift", "can't shift that many"]
  else proceed { st with arguments := st.arguments.drop n } 0

/-! ### Place and variables -/

def changeDirectory (args : List String) (st : State) : Step :=
  let target := args.headD ((st.bindings.get? "HOME").getD "")
  let refused := proceed (st.complain ["cd", "can't cd to " ++ target]) 2
  match st.workspace.locate target with
  | .error _ => refused
  | .ok place =>
    if st.workspace.entries.get? place matches some .directory then
      proceed { st with workspace := { st.workspace with here := place } } 0
    else refused

/-- Goes on unless a variable could not be changed; `name` is the command that tried. -/
def settled (name : String) (status : Int) (st : State) : Step :=
  match st.fault with
  | some words => abort { st with fault := none } (name :: words)
  | none => proceed st status

/-- Takes up an assignment or a name alone; gives the name, too. -/
def assignWord (st : State) (word : String) : String × State :=
  let name := word.toList.takeWhile (· != '=')
  let value := word.toList.drop (name.length + 1)
  let text := String.ofList name
  if !isVariableName name then (text, st.fail [text, "bad variable name"])
  else if name.length < word.length then (text, st.assign text (String.ofList value))
  else (text, st)

/-- Takes up assignments and names; `mark` is done for every name. Nothing but a listing is an option. -/
def declare (command : String) (mark : State → String → State) (args : List String) (st : State) : Step :=
  settled command 0 ((args.filter (· ≠ "-p")).foldl (fun st a =>
    let (name, st) := assignWord st a
    mark st name) st)

def exportAll : List String → State → Step :=
  declare "export" fun st name => { st with exported := st.exported ++ [name] }

def readonly : List String → State → Step :=
  declare "readonly" fun st name => { st with constants := name :: st.constants }

/-- Variables that get their values back when the function ends. -/
def makeLocal (args : List String) (st : State) : Step :=
  match st.saved with
  | none => abort st ["local", "not in a function"]
  | some _ => settled "local" 0 (args.foldl (fun st a =>
      let (name, changed) := assignWord st a
      { changed with saved := some ((name, st.bindings.get? name) :: st.saved.getD []) }) st)

def unset (args : List String) (st : State) : Step :=
  match args with
  | "-f" :: names => proceed { st with functions := st.functions.filter fun (k, _) => !names.contains k } 0
  | _ => settled "unset" 0 ((args.filter (· ≠ "-v")).foldl (fun st name =>
      if isVariableName name.toList then st.change name none
      else st.fail [name, "bad variable name"]) st)

/-- The option of each long name. -/
def longOptions : List (String × Char) :=
  [("errexit", 'e'), ("nounset", 'u'), ("xtrace", 'x'), ("noglob", 'f'), ("verbose", 'v')]

/-- Sets options and arguments. -/
def set (st : State) : List String → Step
  | [] => proceed st 0
  | "--" :: args => proceed { st with arguments := args } 0
  | "-o" :: name :: rest =>
    set { st with options := (longOptions.lookup name).toList ++ st.options } rest
  | "+o" :: name :: rest =>
    set { st with options := st.options.filter fun c => longOptions.lookup name ≠ some c } rest
  | w :: rest =>
    let letters := w.toList.drop 1
    if w.startsWith "-" && !letters.isEmpty then
      set { st with options := letters ++ st.options.filter fun c => !letters.contains c } rest
    else if w.startsWith "+" && !letters.isEmpty then
      set { st with options := st.options.filter fun c => !letters.contains c } rest
    else proceed { st with arguments := w :: rest } 0

/-! ### Input -/

/-- A line of the input, with the characters that a backslash protects, and what follows it; the flag
tells that the line has an end. -/
def line (raw : Bool) : Nat → List Char → List (Bool × Char) × List Char × Bool
  | 0, s => ([], s, false)
  | n + 1, s =>
    let push (m : Bool × Char) (r : List (Bool × Char) × List Char × Bool) :
        List (Bool × Char) × List Char × Bool := (m :: r.1, r.2)
    match s with
    | [] => ([], [], false)
    | '\n' :: rest => ([], rest, true)
    | ['\\'] => if raw then push (false, '\\') ([], [], false) else ([], [], false)
    | '\\' :: c :: rest =>
      if raw then push (false, '\\') (line raw n (c :: rest))
      else if c == '\n' then line raw n rest
      else push (true, c) (line raw n rest)
    | c :: rest => push (false, c) (line raw n rest)

/-- The values of `n` variables: all but the last get a field each, the last one the rest. -/
def shares (separators : List Char) : Nat → List (Bool × Char) → List String
  | 0, _ => []
  | n + 1, s =>
    let separates (m : Bool × Char) : Bool := !m.1 && separators.contains m.2
    let isGap (m : Bool × Char) : Bool := separates m && Mark.isBlank m.2
    let s := s.dropWhile isGap
    let field := s.takeWhile fun m => !separates m
    let after := (s.drop field.length).dropWhile isGap
    let after := if after.head?.any separates then (after.drop 1).dropWhile isGap else after
    let text (ms : List (Bool × Char)) : String := String.ofList (ms.map Prod.snd)
    if n = 0 then [text (if after.isEmpty then field else (s.reverse.dropWhile isGap).reverse)]
    else text field :: shares separators n after

/-- Reads a line into variables. -/
def read (args : List String) (st : State) : Step :=
  let raw := args.contains "-r"
  let names := args.filter fun a => !a.startsWith "-"
  let text := (Tool.textOf st.input).toList
  let (marks, rest, ended) := line raw (text.length + 1) text
  let values := shares st.separators (max names.length 1) marks
  let st := { st with input := (String.ofList rest).toUTF8 }
  let st := (names.zip values).foldl (fun st (k, v) => st.assign k v) st
  match st.fault with
  | some words => proceed ({ st with fault := none }.complain ("read" :: words)) 2
  | none => proceed st (if ended then 0 else 1)

/-! ### Signals -/

def signals : List (String × Int) :=
  [("HUP", 1), ("INT", 2), ("QUIT", 3), ("ILL", 4), ("TRAP", 5), ("ABRT", 6), ("BUS", 7), ("FPE", 8),
    ("KILL", 9), ("USR1", 10), ("SEGV", 11), ("USR2", 12), ("PIPE", 13), ("ALRM", 14), ("TERM", 15)]

/-- The event of a name or a number. -/
def event? (s : String) : Option String :=
  let s := if s.startsWith "SIG" then String.ofList (s.toList.drop 3) else s
  if s == "EXIT" || s == "0" then some "EXIT"
  else match s.toNat? with
    | some n => (signals.find? fun (_, m) => m = n).map Prod.fst
    | none => if (signals.lookup s).isSome then some s else none

/-- Says what is done on events; a dash does what is done otherwise. -/
def trap (args : List String) (st : State) : Step :=
  match if args.head? == some "--" then args.drop 1 else args with
  | [] => proceed st 0
  | [name] =>
    proceed { st with traps := st.traps.filter fun (k, _) => event? name ≠ some k } 0
  | action :: names =>
    match names.find? fun n => (event? n).isNone with
    | some bad => proceed (st.complain ["trap", bad ++ ": bad trap"]) 1
    | none => proceed (names.foldl (fun st n =>
        let name := (event? n).getD ""
        if action == "-" then { st with traps := st.traps.filter (·.1 ≠ name) }
        else { st with traps := st.traps.put name action }) st) 0

end Builtin

end InlineImpact.Shell
