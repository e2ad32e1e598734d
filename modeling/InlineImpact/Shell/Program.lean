import InlineImpact.Shell.Tool.Files
import InlineImpact.Shell.Tool.Lines
import InlineImpact.Shell.Tool.Print
import InlineImpact.Shell.Tool.Test

/-!
Programs and how they are found: by a path, or by a name in the directories of a search path. A file
is a program if it may be executed and says what reads it; shells also start files that do not say so.
-/
namespace InlineImpact.Shell

def Tool.sleep : Tool := fun args st =>
  { workspace := st.workspace
    elapsed := args.foldl (fun t a => t + (Text.readFloat? a.toList).getD 0.0) 0.0 }

/-- The tools that are part of the shell. -/
def innerTools : List (String × Tool) := [
  ("echo", Tool.echo), ("printf", Tool.printf), ("test", Tool.test), ("[", Tool.bracket),
  ("pwd", Tool.pwd), ("true", fun _ st => Tool.succeed st), ("false", fun _ st => Tool.decide false st)]

/-- The tools that are files of the host. -/
def outerTools : List (String × Tool) := [
  ("cat", Tool.cat), ("grep", Tool.grep), ("head", Tool.head), ("tail", Tool.tail), ("wc", Tool.wc),
  ("tr", Tool.tr), ("cut", Tool.cut), ("sort", Tool.sort), ("uniq", Tool.uniq), ("tee", Tool.tee),
  ("seq", Tool.seq), ("mkdir", Tool.mkdir), ("rm", Tool.rm), ("rmdir", Tool.rmdir),
  ("touch", Tool.touch), ("cp", Tool.cp), ("mv", Tool.mv), ("chmod", Tool.chmod), ("ls", Tool.ls),
  ("basename", Tool.basename), ("dirname", Tool.dirname), ("sleep", Tool.sleep)]

inductive Program where
  | tool (t : Tool)
  | shell
  /-- Runs another program with other variables. -/
  | environment
  | script (path : String) (text : List Char)

namespace Program

def named? (name : String) : Option Program :=
  if name == "sh" then some .shell
  else if name == "env" then some .environment
  else ((innerTools ++ outerTools).lookup name).map .tool

/-- The directories that hold the tools. -/
def directories : List String := ["/bin", "/usr/bin"]

/-- The search path of a shell that has none. -/
def standardPath : String := ":".intercalate directories

/-- The path of the program that a script's first line says shall read it. It ends at a blank. -/
def readerOf : List Char → Option String
  | '#' :: '!' :: rest =>
    let path := (rest.takeWhile (· != '\n')).dropWhile fun c => c == ' ' || c == '\t'
    some (String.ofList (path.takeWhile fun c => c != ' ' && c != '\t' && c != '\x00'))
  | _ => none

/-- The tool that a path leads to, if it is one that every host has. -/
def toolAt? (path : String) : Option Program :=
  directories.findSome? fun d =>
    if path.startsWith (d ++ "/") then named? (String.ofList (path.toList.drop (d.length + 1)))
    else none

/-- The program in a file. Shells also read scripts that do not say what reads them. -/
def inFile (ws : Workspace) (lenient : Bool) (path : String) : Except StorageError Program :=
  match toolAt? path with
  | some p => .ok p
  | none =>
    match ws.locate path with
    | .error e => .error e
    | .ok place =>
      match ws.entries.get? place with
      | none => .error .notFound
      | some .directory => .error .denied
      | some (.file content executable) =>
        if !executable then .error .denied
        else
          let text := (Tool.textOf content).toList
          match readerOf text with
          | some reader => if reader == "/bin/sh" then .ok (.script path text) else .error .notFound
          | none => if lenient then .ok (.script path text) else .error .notExecutable

/-- The places where a program of this name is looked for. -/
def candidates (path : Option String) (name : String) : List String :=
  if name.contains '/' then [name]
  else ((path.getD standardPath).splitOn ":").map fun d => Path.join d name

/-- The first candidate that can be started, else the first error that tells more than absence. -/
def find (ws : Workspace) (lenient : Bool) (path : Option String) (name : String) :
    Except StorageError Program :=
  go none .notFound (candidates path name)
where
  go (telling : Option StorageError) (last : StorageError) : List String → Except StorageError Program
    | [] => .error (telling.getD last)
    | p :: rest =>
      match inFile ws lenient p with
      | .ok program => .ok program
      | .error e =>
        go (telling <|> if e = .notFound ∨ e = .notDirectory then none else some e) e rest

/-- The candidates that are tools or executable files. -/
def found (path : Option String) (ws : Workspace) (name : String) : List String :=
  (candidates path name).filter fun p =>
    (toolAt? p).isSome || match ws.entry? p with
      | some (.file _ executable) => executable
      | _ => false

end Program

/-- There is a tool of this name, or an executable file. An empty search path finds nothing. -/
def offers (path : Option String) (ws : Workspace) (name : String) : Bool :=
  if path == some "" && !name.contains '/' then false else !(Program.found path ws name).isEmpty

end InlineImpact.Shell
