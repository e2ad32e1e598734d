import InlineImpact.Shell.Tool
import InlineImpact.Text.Numeral

/-!
Tools that make, move and list files, and that take paths apart.
-/
namespace InlineImpact.Shell.Tool

/-- Applies a change for every path; `wording` says what is wrong with one. -/
def change (wording : String → StorageError → String)
    (f : Workspace → String → Except StorageError Workspace) (paths : List String) (st : State) : Report :=
  paths.foldl (fun r path =>
    match f r.workspace path with
    | .ok ws => { r with workspace := ws }
    | .error e => { r with status := 1, err := r.err ++ (wording path e ++ "\n").toUTF8 }) (succeed st)

def cannot (what path : String) (e : StorageError) : String :=
  what ++ " '" ++ path ++ "': " ++ e.reason

def ofFault (r : Except StorageFault Workspace) : Except StorageError Workspace := r.mapError (·.error)

def makeDirectory (ws : Workspace) (path : String) : Except StorageError Workspace := do
  let place ← ws.locate (Path.trimSlashes path)
  if (ws.entries.get? place).isSome then .error .occupied
  else return { ws with entries := ws.entries.put place .directory }

def mkdir : Tool := fun args st =>
  let (options, paths) := splitOptions args
  change (cannot "mkdir: cannot create directory")
    (fun ws path => if options.contains 'p' then ofFault (ws.makeDirectories path)
      else makeDirectory ws path) paths st

/-- Removes a place and all that is below it. -/
def removeTree (ws : Workspace) (place : Place) : Workspace :=
  { ws with entries := ws.entries.filter fun (p, _) => !place.isPrefixOf p }

def rm : Tool := fun args st =>
  let (options, paths) := splitOptions args
  let deep := options.contains 'r' || options.contains 'R'
  change (cannot "rm: cannot remove") (fun ws path =>
    match ws.locate path with
    | .error e => if options.contains 'f' then .ok ws else .error e
    | .ok place =>
      match ws.entries.get? place with
      | none => if options.contains 'f' then .ok ws else .error .notFound
      | some .directory => if deep then .ok (removeTree ws place) else .error .isDirectory
      | some (.file ..) => .ok (removeTree ws place)) paths st

def rmdir : Tool := fun args st =>
  (splitOptions args).2.foldl (fun r path =>
    let refused (reason : String) : Report :=
      { r with status := 1
               err := r.err ++ ("rmdir: failed to remove '" ++ path ++ "': " ++ reason ++ "\n").toUTF8 }
    match r.workspace.locate path with
    | .error e => refused e.reason
    | .ok place =>
      match r.workspace.entries.get? place with
      | none => refused StorageError.notFound.reason
      | some (.file ..) => refused StorageError.notDirectory.reason
      | some .directory =>
        if r.workspace.entries.any fun (p, _) => place.isPrefixOf p && p ≠ place then
          refused "Directory not empty"
        else { r with workspace := removeTree r.workspace place }) (succeed st)

def touch : Tool := fun args st =>
  change (cannot "touch: cannot touch") (fun ws path =>
    if ws.holds path then .ok ws else ofFault (ws.append path ByteArray.empty)) (splitOptions args).2 st

/-- The last part of a path. -/
def lastPart (p : String) : String :=
  let p := Path.trimSlashes p
  if p == "/" then p else String.ofList (p.toList.reverse.takeWhile (· != '/')).reverse

/-- Where something that is put at a path ends up: inside of a directory that is there. -/
def target (ws : Workspace) (from_ path : String) : String :=
  if ws.isDirectory path then Path.join path (lastPart from_) else path

def sourceWording (name : String) : String → StorageError → String := cannot (name ++ ": cannot stat")

def copyFile (ws : Workspace) (path goal : String) : Except StorageError Workspace :=
  match ws.entry? path with
  | some (.file content executable) => do
    let place ← ws.locateFile goal
    match ws.entries.get? place with
    | some (.file _ kept) => return { ws with entries := ws.entries.put place (.file content kept) }
    | _ => return { ws with entries := ws.entries.put place (.file content executable) }
  | some .directory => .error .isDirectory
  | none => .error .notFound

def cp : Tool := fun args st =>
  let paths := (splitOptions args).2
  match paths.getLast? with
  | none => refuse st 1 "cp: missing file operand"
  | some goal =>
    change (sourceWording "cp") (fun ws path => copyFile ws path (target ws path goal)) paths.dropLast st

/-- Gives a place and all below it another name. -/
def moveTree (ws : Workspace) (place goal : Place) : Workspace :=
  let moved := ws.entries.filter fun (p, _) => place.isPrefixOf p
  let kept := ws.entries.filter fun (p, _) => !place.isPrefixOf p && !goal.isPrefixOf p
  { ws with entries := kept ++ moved.map fun (p, e) => (goal ++ p.drop place.length, e) }

def mv : Tool := fun args st =>
  let paths := (splitOptions args).2
  match paths.getLast? with
  | none => refuse st 1 "mv: missing file operand"
  | some goal =>
    change (sourceWording "mv") (fun ws path => do
      let place ← ws.locate path
      if (ws.entries.get? place).isNone then .error .notFound
      else
        let goal ← ws.locate (target ws path goal)
        if goal = place then .ok ws else return moveTree ws place goal) paths.dropLast st

/-- Makes files executable, or no longer so. -/
def chmod : Tool := fun args st =>
  match args with
  | mode :: paths =>
    let allows := mode.contains 'x' && !mode.contains '-' ||
      mode.toList.any fun c => c == '1' || c == '3' || c == '5' || c == '7'
    let concerns := mode.contains 'x' || mode.toList.all Char.isDigit
    change (cannot "chmod: cannot access") (fun ws path => do
      let place ← ws.locate path
      match ws.entries.get? place with
      | none => .error .notFound
      | some (.file content executable) =>
        let entry := Entry.file content (if concerns then allows else executable)
        return { ws with entries := ws.entries.put place entry }
      | some .directory => .ok ws) paths st
  | [] => refuse st 1 "chmod: missing operand"

/-- The names in a directory, in order; one that starts with a dot counts if everything does. -/
def listed (ws : Workspace) (everything : Bool) (path : String) : List String :=
  match ws.locate path with
  | .error _ => []
  | .ok place =>
    ((ws.namesIn place).filter fun n => everything || !n.startsWith ".").mergeSort fun a b => !(b < a)

def ls : Tool := fun args st =>
  let (options, paths) := splitOptions args
  let paths := if paths.isEmpty then ["."] else paths
  let (missing, present) := paths.partition fun p => !st.workspace.holds p
  let (directories, files) := present.partition st.workspace.isDirectory
  let shown (ns : List String) : String := "".intercalate (ns.map (· ++ "\n"))
  let sections := directories.map fun d =>
    (if paths.length = 1 then "" else d ++ ":\n") ++ shown (listed st.workspace (options.contains 'A') d)
  let out := "\n".intercalate ((if files.isEmpty then [] else [shown files]) ++ sections)
  let said := missing.map fun p =>
    "ls: cannot access '" ++ p ++ "': " ++ StorageError.notFound.reason ++ "\n"
  { out := out.toUTF8, err := ("".intercalate said).toUTF8
    status := if missing.isEmpty then 0 else 2, workspace := st.workspace }

def basename : Tool := fun args st =>
  match args with
  | [] => refuse st 1 "basename: missing operand"
  | p :: rest =>
    let name := lastPart p
    let suffix := rest.headD ""
    let cut := if name.endsWith suffix && name ≠ suffix then name.length - suffix.length else name.length
    succeed st (String.ofList (name.toList.take cut) ++ "\n")

def dirname : Tool := fun args st =>
  match args with
  | [] => refuse st 1 "dirname: missing operand"
  | p :: _ =>
    let d := Path.directory (Path.trimSlashes p)
    succeed st ((if p.isEmpty || d.isEmpty then (if p.startsWith "/" then "/" else ".") else d) ++ "\n")

def pwd : Tool := fun _ st => succeed st (st.workspace.hereText ++ "\n")

end InlineImpact.Shell.Tool
