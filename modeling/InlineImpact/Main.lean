import InlineImpact.CommandLine
import InlineImpact.Settings.Environment
import InlineImpact.Shell.Run

/-!
The program: reads the files below the working directory, carries the command line out on them, and
writes back what changed.
-/
namespace InlineImpact.Main

/-- The variables that say something about settings or programs. -/
def variableNames : List String := [
  "EXPLORER_RESULTS_DIR", "CORE_ROOT", "EXPLORER_RUNNER", "EXPLORER_CAPTURE_COMMAND",
  "EXPLORER_PMC_INTERVAL", "EXPLORER_MIN_ITERATIONS", "EXPLORER_TARGET_SECONDS",
  "EXPLORER_RUN_TIMEOUT", "EXPLORER_MAX_RETRIES", "EXPLORER_NOISE_THRESHOLD",
  "EXPLORER_NOISE_SIGMAS", "EXPLORER_DEPTH_LIMIT", "EXPLORER_BOOTSTRAP_RESAMPLES",
  "EXPLORER_MIN_SAMPLES", "EXPLORER_SEED", "PATH", "HOME"]

/-- The file in which the kernel says how much of its events users see. -/
def levelFile : String := "/proc/sys/kernel/perf_event_paranoid"

def readEnvironment : IO (Keyed String String) := do
  let found ← variableNames.mapM fun name => do return (name, ← IO.getEnv name)
  return found.filterMap fun (name, value) => value.map fun v => (name, v)

/-- A script says at its front which program reads it. -/
def isScript (bytes : ByteArray) : Bool :=
  (bytes.extract 0 2).toList == "#!".toUTF8.toList

/-- Reads files and directories into a workspace, at their paths from here. -/
partial def gather (above : String) (ws : Workspace) : List IO.FS.DirEntry → IO Workspace
  | [] => return ws
  | entry :: rest => do
    let path := above ++ entry.fileName
    let ws ←
      if ← entry.path.isDir then
        let ws := (ws.makeDirectories path).toOption.getD ws
        gather (path ++ "/") ws (← entry.path.readDir).toList
      else
        let bytes ← IO.FS.readBinFile entry.path
        pure (ws.place path bytes (isScript bytes))
    gather above ws rest

/-- Puts a single file from elsewhere into a workspace, if it can be read. -/
def fetch (path : String) (ws : Workspace) : IO Workspace := do
  try
    let bytes ← IO.FS.readBinFile path
    match ws.makeDirectories (Path.directory path) with
    | .ok ws => return (ws.write path bytes).toOption.getD ws
    | .error _ => return ws
  catch _ => return ws

/-- Writes the files back that are new or have changed. -/
def writeBack (before after : Workspace) : IO Unit := do
  let old := before.filesBelow "."
  for (path, bytes) in after.filesBelow "." do
    if (old.lookup path).all fun b => b.toList != bytes.toList then
      let directory := Path.directory path
      if !directory.isEmpty then IO.FS.createDirAll directory
      IO.FS.writeBinFile path bytes

/-- What the host says about counters, as far as its files tell. -/
def factsOf (environment : Keyed String String) (ws : Workspace) : Capture.HostFacts := {
  finds := fun tool => Shell.offers (environment.get? "PATH") ws tool || ws.holds tool
  isLinux := ws.holds levelFile
  levelFile
  level := (ws.read levelFile).toOption.bind fun bytes =>
    (Workspace.decode? bytes).map String.ofList
  isAdministrator := false }

def carryOut (request : CommandLine.Request) : IO UInt32 := do
  let environment ← readEnvironment
  let here ← IO.currentDir
  let parts := (here.toString.splitOn "/").filter (· ≠ "")
  let ws ← gather "" (Workspace.empty parts) (← here.readDir).toList
  let before ← fetch levelFile ws
  let ready := do
    let found ← Settings.readEnvironment environment defaultResultsDir
    let (warnings, ws) ← found.settings.makeReady before (Shell.offers (environment.get? "PATH"))
    return (found.settings, warnings, ws)
  match ready with
  | .error failure =>
    IO.eprintln failure.message
    return 1
  | .ok (settings, warnings, ws) =>
    let trial := CommandLine.run
      { settings, launcher := Shell.launch, environment, facts := factsOf environment } request ws
    IO.print (warnings ++ trial.output)
    writeBack before trial.workspace
    match trial.outcome with
    | .ok code => return code.toNat.toUInt32
    | .error failure =>
      IO.eprintln failure.message
      return 1

end InlineImpact.Main

def main (args : List String) : IO UInt32 :=
  match InlineImpact.CommandLine.Request.read args with
  | .error .help => return 0
  | .error .rejected => do
    IO.eprintln "the command line cannot be understood"
    return 2
  | .ok request => InlineImpact.Main.carryOut request
