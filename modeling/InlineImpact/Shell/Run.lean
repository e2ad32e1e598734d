import InlineImpact.Shell.Builtin
import InlineImpact.Shell.Expansion
import InlineImpact.Shell.Script.Reader

/-!
Running scripts inside a workspace. Programs that are scripts run in a shell of their own. Nesting and
repetition are bounded, and a script that goes beyond the bound counts as one that does not end in time.
-/
namespace InlineImpact.Shell

open Step (proceed finish abort andThen checked)

abbrev Evaluate := Command → State → Step

/-! ### Processes -/

/-- Commands one after the other. -/
def runAll (self : Evaluate) (commands : List Command) (st : State) : Step :=
  commands.foldl (fun step c => andThen step (self c)) (none, st)

/-- A place where a script cannot be read ends the shell. -/
def halt (m : Misfit) (st : State) : Step :=
  finish ({ st with line := m.line }.report ["Syntax error: " ++ m.reason]) 2

/-- Runs a text as a script; a line that cannot be read ends the shell. -/
def runText (self : Evaluate) (text : List Char) (st : State) : Step :=
  let script := Script.read 1 text
  andThen (runAll self script.commands st) fun st => script.stop.elim (none, st) (halt · st)

/-- The end of a shell: what it has been told to do at its end is done first. -/
def close (self : Evaluate) (step : Step) : Ending × State :=
  let (ending, st) := Step.ending step
  match st.traps.get? "EXIT", ending with
  | some action, .exited code =>
    if code < 0 then (ending, st)
    else
      let last := { st with traps := st.traps.filter (·.1 ≠ "EXIT"), status := code }
      match runText self action.toList last with
      | (some (.ended e), st) => (e, st)
      | (_, st) => (.exited code, st)
  | _, _ => (ending, st)

/-- The state of a process that starts as a copy of the shell. -/
def copied (st : State) : State := { st with traps := st.traps.filter (·.2 == "") }

/-- Runs a command in a process of its own. -/
def apart (self : Evaluate) (c : Command) (st : State) : Ending × State :=
  close self (self c (copied st))

/-- Runs a script in place of the shell. -/
def runScript (self : Evaluate) (name : String) (text : List Char) (args : List String) (st : State) :
    Ending × State :=
  close self (runText self text { copied st with
    bindings := st.environment, constants := [], functions := [], name, arguments := args, speaker := none, line := 0
    status := 0
    options := [], tested := false, loops := 0, saved := none })

/-- The options of a shell, and its other words. -/
def shellOptions : List String → List Char × List String
  | [] => ([], [])
  | w :: rest =>
    if w.startsWith "-" && w ≠ "-" && w ≠ "--" then
      let (letters, words) := shellOptions rest
      (w.toList.drop 1 ++ letters, words)
    else ([], if w == "--" then rest else w :: rest)

/-- Runs a shell with arguments: a script in them, in a file, or in the input. -/
def runShell (self : Evaluate) (args : List String) (st : State) : Ending × State :=
  let (options, words) := shellOptions args
  let strict (c : List Char) : List Char :=
    options.foldr (fun o text => if o == 'c' then text else "set -".toList ++ [o] ++ [';'] ++ text) c
  match options.contains 'c', words with
  | true, text :: rest => runScript self (rest.headD "sh") (strict text.toList) (rest.drop 1) st
  | false, path :: rest =>
    match st.workspace.read path with
    | .ok bytes => runScript self path (strict (Tool.textOf bytes).toList) rest st
    | .error _ =>
      let st := { st with name := "sh", line := 0 }
      (.exited 2, st.complain ["cannot open " ++ path, "No such file"])
  | _, [] =>
    runScript self "sh" (strict (Tool.textOf st.input).toList) [] { st with input := ByteArray.empty }

/-- Takes up what a tool reports. -/
def settle (r : Report) (st : State) : Step :=
  let st := { st with workspace := r.workspace, status := r.status, input := r.input.getD st.input }
  Step.spend r.elapsed (if r.saidFirst then (st.emit st.err r.err).emit st.out r.out
    else (st.emit st.out r.out).emit st.err r.err)

def notFoundWords (command : List String) : StorageError → Int × List String
  | .notFound | .notDirectory => (127, command ++ ["not found"])
  | e => (126, command ++ [e.reason])

def searchPath (st : State) : Option String := st.bindings.get? "PATH"

/-- Runs a program with arguments in place of the shell; at most `n` programs start one another. -/
def runProgram (self : Evaluate) : Nat → Program → List String → State → Ending × State
  | 0, _, _, st => (.timedOut, st)
  | n + 1, p, args, st =>
    match p with
    | .tool t => Step.ending (settle (t args st) st)
    | .script path text => runScript self path text args st
    | .shell => runShell self args st
    | .environment =>
      let words := args.filter (· ≠ "-i")
      let st := if words.length < args.length then { st with exported := [] } else st
      let assignments := words.takeWhile fun w => (assignment? w.toList).isSome
      let st := { (Builtin.exportAll assignments st).2 with status := 0 }
      match words.drop assignments.length with
      | [] => Step.ending (settle (Tool.succeed st ("".intercalate (st.environment.map fun (k, v) =>
          k ++ "=" ++ v ++ "\n"))) st)
      | name :: args =>
        match Program.find st.workspace true (searchPath st) name with
        | .ok p => runProgram self n p args st
        | .error e =>
          let (status, _) := notFoundWords [] e
          (.exited status, st.emit st.err ("env: '" ++ name ++ "': " ++ e.reason ++ "\n").toUTF8)

def maxPrograms : Nat := 16

/-- Runs a program and waits for it. -/
def external (self : Evaluate) (name : String) (args : List String) (st : State) : Step :=
  match Program.find st.workspace true (searchPath st) name with
  | .ok p => waited st (runProgram self maxPrograms p args st)
  | .error e =>
    let (status, words) := notFoundWords [name] e
    proceed (st.report words) status

/-- Runs a program that takes the place of the shell. -/
def replace (self : Evaluate) (args : List String) (st : State) : Step :=
  match args with
  | [] => proceed st 0
  | name :: args =>
    match Program.find st.workspace true (searchPath st) name with
    | .error e =>
      let (status, words) := notFoundWords ["exec", name] e
      finish (st.complain words) status
    | .ok p =>
      let (ending, st) := runProgram self maxPrograms p args st
      (some (.ended ending), st)

/-! ### Words -/

/-- The output of a script without the line ends at its end. A script that cannot be read is a fault. -/
def substitute (self : Evaluate) : Substitute := fun ticked script st =>
  match Script.readInner ticked (if ticked then 1 else st.line) script with
  | .error m => ("", { st with line := m.line }.fail ["Syntax error: " ++ m.reason])
  | .ok commands =>
    let inner := { copied st with kept := ByteArray.empty, out := .kept }
    let (_, after) := waited inner (close self (runAll self commands inner))
    let text := (Tool.textOf after.kept).toList
    (String.ofList (text.reverse.dropWhile (· == '\n')).reverse,
      { leftBehind st after with kept := st.kept, substituted := some after.status })

def expandMarks (self : Evaluate) (q : Quotation) (word : List Char) (st : State) : List Mark × State :=
  expand (substitute self) (word.length + 1) q word st

def expandWhole (self : Evaluate) (word : List Char) (st : State) : String × State :=
  let (ms, st) := expandMarks self .none word st
  (Mark.whole ms, st)

def expandAll (self : Evaluate) (words : List (List Char)) (st : State) : List String × State :=
  words.foldl (fun (fields, st) w =>
    if st.fault.isSome then (fields, st)
    else
    let (ms, st) := expandMarks self .none w st
    let texts (field : List (Bool × Char)) : List String :=
      if st.options.contains 'f' then [String.ofList (field.map Prod.snd)]
      else expandPath st.workspace field
    (fields ++ (Mark.fields st.separators ms).flatMap texts, st)) ([], st)

/-- Takes up assignments, and gives them as they are shown. -/
def assignAll (self : Evaluate) (words : List (List Char)) (st : State) : List String × State :=
  words.foldl (fun (shown, st) w =>
    match assignment? w with
    | none => (shown, st)
    | some (name, value) =>
      let (text, st) := expandWhole self value st
      let name := String.ofList name
      (shown ++ [name ++ "=" ++ text], st.assign name text)) ([], st)

/-! ### Simple commands -/

/-- Sends a signal to the shell itself; other processes are not there any more. -/
def signal (self : Evaluate) (event target : String) (st : State) : Step :=
  if target == State.backgroundNumber then proceed st 0
  else if target ≠ State.processNumber then proceed (st.complain ["kill", "No such process"]) 1
  else match st.traps.get? event with
    | some action =>
      if event == "KILL" then (some (.ended (.exited (-9))), st)
      else
        let (interrupt, after) := runText self action.toList { st with status := 0 }
        (interrupt, { after with status := 0 })
    | none =>
      match Builtin.signals.lookup event with
      | some n => (some (.ended (.exited (-n))), st)
      | none => proceed st 0

def kill (self : Evaluate) (args : List String) (st : State) : Step :=
  let named (event target : String) : Step :=
    match Builtin.event? event with
    | some event => signal self event target st
    | none => proceed (st.complain ["kill", "invalid signal number or name: " ++ event]) 1
  match args with
  | [target] => named "TERM" target
  | ["-s", name, target] => named name target
  | [option, target] => named (String.ofList (option.toList.drop 1)) target
  | _ => proceed st 2

/-- Calls a function: it has arguments of its own, and its local variables end with it. -/
def call (self : Evaluate) (body : Command) (args : List String) (st : State) : Step :=
  let (interrupt, after) := self body { st with arguments := args, saved := some [], loops := 0 }
  let restored := (after.saved.getD []).foldl (fun st (name, old) =>
    st.restore name old) after
  let st := { restored with arguments := st.arguments, saved := st.saved, loops := st.loops }
  match interrupt with
  | some (.ended e) => (some (.ended e), st)
  | _ => (none, st)

/-- Runs a script as a part of this one, in the name of the command that reads it in. -/
def voiced (speaker : String) (run : State → Step) (st : State) : Step :=
  let (interrupt, after) := run { st with status := 0, speaker := some speaker }
  (interrupt, { after with speaker := st.speaker })

/-- Runs the script in a file as a part of this one. -/
def source (self : Evaluate) (args : List String) (st : State) : Step :=
  match args with
  | [] => proceed st 0
  | path :: _ =>
    let readable := (Program.candidates (searchPath st) path).findSome? fun p =>
      (st.workspace.read p).toOption.map (p, ·)
    match readable with
    | none => abort st (if path.contains '/' then [".", "cannot open " ++ path, "No such file"]
        else [".", path, "not found"])
    | some (p, bytes) =>
      match voiced p (runText self (Tool.textOf bytes).toList) st with
      | (some .returned, st) => (none, st)
      | step => step

/-- What a name stands for as a command, as a text. -/
def meaning? (st : State) (special : List String) (name : String) : Option String :=
  if special.contains name || (innerTools.lookup name).isSome || (st.functions.get? name).isSome then
    some name
  else (Program.found (searchPath st) st.workspace name).head?

/-- The commands that change the shell. -/
def special : List String := [":", ".", "exit", "return", "break", "continue", "shift", "kill", "exec",
  "eval", "cd", "export", "readonly", "local", "unset", "set", "read", "trap", "wait", "command", "umask",
  "ulimit", "times", "hash"]

/-- Runs a command by its name; names of functions count only with `functions`. -/
def dispatch (self : Evaluate) (functions : Bool) (name : String) (args : List String) (st : State) :
    Step :=
  match name with
  | ":" | "times" => proceed st 0
  | "." => source self args st
  | "exit" => Builtin.exit args st
  | "return" => Builtin.leaveFunction args st
  | "break" => Builtin.leave name false args st
  | "continue" => Builtin.leave name true args st
  | "shift" => Builtin.shift args st
  | "exec" => replace self args st
  | "eval" => voiced "eval" (runText self (" ".intercalate args).toList) st
  | "export" => Builtin.exportAll args st
  | "readonly" => Builtin.readonly args st
  | "unset" => Builtin.unset args st
  | "set" => Builtin.set st args
  | "trap" => Builtin.trap args st
  | _ =>
    match (st.functions.get? name).filter fun _ => functions with
    | some body => call self body args st
    | none =>
      match name with
      | "umask" | "ulimit" | "hash" => proceed st 0
      | "kill" => kill self args st
      | "cd" => Builtin.changeDirectory args st
      | "local" => Builtin.makeLocal args st
      | "read" => Builtin.read args st
      | "wait" =>
        let (interrupt, st) := Step.spend (max 0.0 (st.background - st.elapsed)) st
        (interrupt, { st with status := if args.isEmpty then 0 else st.backgroundStatus })
      | _ =>
        match innerTools.lookup name with
        | some t => settle (t args st) st
        | none => external self name args st

/-- Runs a command past the functions, or says what its name stands for. -/
def command (self : Evaluate) (args : List String) (st : State) : Step :=
  match args with
  | "-v" :: names =>
    match names.mapM (meaning? st special) with
    | some texts => settle (Tool.succeed st ("".intercalate (texts.map (· ++ "\n")))) st
    | none => proceed st 127
  | name :: args => dispatch self false name args st
  | [] => proceed st 0

/-- How long the shell needs for a command of its own. -/
def commandSeconds : Float := 0.000001

/-- Shows a command before it runs, if the shell is told to. -/
def trace (words : List String) (st : State) : State :=
  if st.options.contains 'x' then st.emit st.err ("+ " ++ " ".intercalate words ++ "\n").toUTF8 else st

/-- Goes on unless a word could not be expanded. -/
def unlessFault (st : State) (next : State → Step) : Step :=
  match st.fault with
  | some words => finish ({ st with fault := none }.report words) 2
  | none => next st

/-- Assignments alone change the shell; before most commands they hold for the command alone. -/
def simple (self : Evaluate) (line : Nat) (words : List (List Char)) (st : State) : Step :=
  let assignments := words.takeWhile fun w => (assignment? w).isSome
  let st := { st with line, substituted := none, fault := none }
  let (fields, st) := expandAll self (words.drop assignments.length) st
  unlessFault st fun st =>
    let before := st
    let (shown, st) := assignAll self assignments st
    unlessFault st fun st =>
      let st := trace (shown ++ fields) st
      andThen (Step.spend commandSeconds st) fun st =>
        match fields with
        | [] => proceed st (st.substituted.getD 0)
        | name :: args =>
          let run (st : State) : Step :=
            if name == "command" && (st.functions.get? name).isNone then command self args st
            else dispatch self true name args st
          if assignments.isEmpty || binding.contains name then run st
          else
            let names := assignments.filterMap fun w => (assignment? w).map fun a => String.ofList a.1
            let (interrupt, after) := run { st with exported := st.exported ++ names }
            let restored := names.foldl (fun s k => s.restore k (before.bindings.get? k)) after
            (interrupt, { restored with exported := before.exported })

/-! ### Redirections -/

/-- Nothing is there, or nothing can be. -/
def isMissing (e : StorageError) : Bool := e = .notFound ∨ e = .notDirectory

/-- Opens what a redirection names; fails with the words of a complaint. -/
def open? (d : Direction) (descriptor : Nat) (target : String) (st : State) :
    Except (List String) State :=
  let put (sink : Sink) (st : State) : State :=
    if descriptor = 1 then { st with out := sink }
    else if descriptor = 2 then { st with err := sink }
    else { st with further := st.further.put descriptor sink }
  let into (change : Except StorageFault Workspace) : Except (List String) State :=
    if target == "/dev/null" then .ok (put .nowhere st)
    else if target == "/dev/stderr" then .ok (put st.err st)
    else if target == "/dev/stdout" then .ok (put st.out st)
    else match change with
      | .ok workspace => .ok (put (.file (Path.join workspace.hereText target)) { st with workspace })
      | .error fault => .error ["cannot create " ++ target,
          if isMissing fault.error then "Directory nonexistent" else fault.error.reason]
  match d with
  | .write => into (st.workspace.write target ByteArray.empty)
  | .append => into (st.workspace.append target ByteArray.empty)
  | .same =>
    if target == "2" then .ok (put st.err st)
    else if target == "1" then .ok (put st.out st)
    else if target == "0" then .ok (put .nowhere st)
    else if target == "-" then
      .ok { (put .nowhere st) with further := st.further.filter (·.1 ≠ descriptor) }
    else match target.toList.map (Text.digitIn? 10) with
      | [some n] => match st.further.get? n with
        | some sink => .ok (put sink st)
        | none => .error [target, "Bad file descriptor"]
      | _ => .ok (st.fail ["Syntax error", "Bad fd number"])
  | .document _ => .ok { st with input := target.toUTF8 }
  | .read =>
    if target == "/dev/null" then .ok { st with input := ByteArray.empty }
    else match st.workspace.read target with
      | .ok input => .ok { st with input }
      | .error fault => .error ["cannot open " ++ target,
          if isMissing fault.error then "No such file" else fault.error.reason]

/-- What a redirection names, or the text of its document. -/
def targetOf (self : Evaluate) (r : Redirection) (st : State) : String × State :=
  match r.direction with
  | .document true => (String.ofList r.target, st)
  | .document false =>
    let (ms, st) := expandMarks self .document r.target st
    (Mark.whole ms, st)
  | _ => expandWhole self r.target st

def openAll (self : Evaluate) (st : State) : List Redirection → Except (List String × State) State
  | [] => .ok st
  | r :: rest =>
    let (target, st) := targetOf self r st
    match open? r.direction r.descriptor target st with
    | .ok st => if st.fault.isSome then .ok st else openAll self st rest
    | .error words => .error (words, st)

/-- A command that no function takes the place of. -/
def isBinding : Command → Bool
  | .simple _ (word :: _) => binding.contains (String.ofList word)
  | _ => false

/-- A command that keeps its redirections for the rest of the shell. -/
def keepsRedirections : Command → Bool
  | .simple _ [word] => word == "exec".toList
  | _ => false

def redirected (self : Evaluate) (line : Nat) (body : Command) (rs : List Redirection) (st : State) :
    Step :=
  match openAll self { st with line, fault := none } rs with
  | .error (words, st) =>
    if isBinding body then finish (st.report words) 2 else checked (proceed (st.report words) 2)
  | .ok opened =>
    unlessFault opened fun opened =>
    if keepsRedirections body then proceed opened 0
    else
      let (interrupt, after) := self body opened
      let reads := rs.any fun r => r.direction matches .read | .document _
      (interrupt, { after with
        out := st.out, err := st.err, further := st.further, input := if reads then st.input else after.input })

/-! ### Compound commands -/

/-- Runs a command whose status someone looks at. -/
def tested (self : Evaluate) (c : Command) (st : State) : Step :=
  let (interrupt, after) := self c { st with tested := true }
  (interrupt, { after with tested := st.tested })

/-- What the end of a turn of a loop means. -/
inductive Turn where
  /-- The next turn follows. -/
  | again (st : State)
  | over (step : Step)

def turn : Step → Turn
  | (none, st) => .again st
  | (some (.left 1 true), st) => .again st
  | (some (.left 1 false), st) | (some (.left 0 _), st) => .over (none, st)
  | (some (.left (n + 2) again), st) => .over (some (.left (n + 1) again), st)
  | step => .over step

/-- Runs the body as long as the test comes out as wanted; `status` is that of the last turn. -/
def runWhile (self : Evaluate) (wanted : Bool) (test body : Command) (status : Int) : Nat → State → Step
  | 0, st => (some (.ended .timedOut), st)
  | n + 1, st =>
    match turn (tested self test st) with
    | .over step => step
    | .again st =>
      if (st.status = 0) == wanted then
        match turn (self body st) with
        | .over step => step
        | .again st => runWhile self wanted test body st.status n st
      else proceed st status

def runEach (self : Evaluate) (name : String) (body : Command) : List String → State → Step
  | [], st => (none, st)
  | v :: rest, st =>
    unlessFault (st.assign name v) fun st =>
      match turn (self body st) with
      | .over step => step
      | .again st => runEach self name body rest st

/-- Runs a loop, which has one more loop around its commands. -/
def looping (st : State) (run : State → Step) : Step :=
  let (interrupt, after) := run { st with loops := st.loops + 1 }
  (interrupt, { after with loops := st.loops })

def runArms (self : Evaluate) (subject : String) (st : State) :
    List (List (List Char) × Command) → Step
  | [] => proceed st 0
  | (ps, body) :: rest =>
    let (fits, st) := ps.foldl (fun (found, st) p =>
      let (ms, st) := expandMarks self .none p st
      (found || Glob.accepts (Mark.globs ms) subject.toList, st)) (false, st)
    if fits then self body { st with status := 0 } else runArms self subject st rest

/-- Runs two commands, the output of the first as the input of the second. -/
def piped (self : Evaluate) (a b : Command) (st : State) : Step :=
  let writer := { st with kept := ByteArray.empty, out := .kept }
  andThen (waited writer (apart self a writer)) fun after =>
    let reader := { after with input := after.kept, kept := st.kept, out := st.out }
    andThen (waited reader (apart self b reader)) fun after => (none, { after with input := st.input })

/-- Starts a command that nothing waits for. -/
def inBackground (self : Evaluate) (c : Command) (st : State) : Step :=
  let (ending, after) := apart self c { st with tested := false }
  let code := match ending with
    | .exited code => statusOf code
    | _ => 0
  proceed { leftBehind st after with
    elapsed := st.elapsed, background := max st.background after.elapsed, backgroundStatus := code } 0

/-- How often a loop may run. -/
def maxTurns : Nat := 1000000

/-- One command; the commands in it run by `self`. -/
def runWith (self : Evaluate) : Evaluate := fun c st =>
  match c with
  | .simple line words => checked (simple self line words st)
  | .sequence parts => runAll self parts st
  | .both a b =>
    andThen (tested self a st) fun st => if st.status = 0 then self b st else (none, st)
  | .either a b =>
    andThen (tested self a st) fun st => if st.status = 0 then (none, st) else self b st
  | .negation body =>
    andThen (tested self body st) fun st => proceed st (if st.status = 0 then 1 else 0)
  | .condition test yes no =>
    andThen (tested self test st) fun st =>
      if st.status = 0 then self yes st else self no { st with status := 0 }
  | .again wanted test body => looping st (runWhile self wanted test body 0 maxTurns)
  | .each line name words body =>
    let st := { st with line, fault := none }
    let (fields, st) := match words with
      | some ws => expandAll self ws st
      | none => (st.arguments, st)
    unlessFault st fun st =>
      looping { st with status := 0 } (runEach self (String.ofList name) body fields)
  | .choice line subject arms =>
    let (text, st) := expandWhole self subject { st with line, fault := none }
    unlessFault st fun st => runArms self text st arms
  | .apart body => checked (waited st (apart self body st))
  | .background body => inBackground self body st
  | .definition name body =>
    proceed { st with functions := st.functions.put (String.ofList name) body } 0
  | .pipe a b => checked (piped self a b st)
  | .redirected line body rs => redirected self line body rs st

/-- Runs a command with at most `n` commands inside one another. -/
def evaluate : Nat → Evaluate
  | 0, _, st => (some (.ended .timedOut), st)
  | n + 1, c, st => runWith (evaluate n) c st

/-- How many commands may run inside one another. -/
def maxDepth : Nat := 2000

/-- Starts a process in a workspace: its messages go to the log, and its output is not kept. -/
def launch : Launcher := fun l ws =>
  match ws.locate l.directory with
  | .error e => (.notStarted e, ws)
  | .ok here =>
    let inside := { ws with here }
    match Program.find inside false (l.environment.get? "PATH") (l.command.headD "") with
    | .error e => (.notStarted e, ws)
    | .ok program =>
      if l.limit ≤ 0.0 then (.timedOut, ws)
      else
        let st : State := {
          workspace := inside, bindings := l.environment, exported := l.environment.keys
          name := l.command.headD "", arguments := [], limit := l.limit
          out := .nowhere, err := .file (Path.absolute ws.hereText l.logFile) }
        let (ending, st) := runProgram (evaluate maxDepth) maxPrograms program (l.command.drop 1) st
        (ending, { st.workspace with here := ws.here })

end InlineImpact.Shell
