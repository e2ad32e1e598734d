import InlineImpact.Configuration
import InlineImpact.Digest
import InlineImpact.Failure
import InlineImpact.Forest.Dump

/-!
Replaying a tree: its written form goes into a file of its own, named by root, size and a digest, and
the configuration points the compiler there. Equal trees share file, name and settings.
-/
namespace InlineImpact.Replay

/-- The beginning of the digest of a written form. -/
def digest (content : String) : String := String.ofList ((Digest.hex content.toUTF8).toList.take 10)

def nameFor (t : Tree) (content : String) : String :=
  "replay-" ++ Text.hex8 t.root.token ++ "-" ++ toString t.size ++ "-" ++ digest content

/-- The written form of one tree. -/
def content (t : Tree) : Except Failure String :=
  match Forest.dump? [t] with
  | some s => .ok s
  | none => .error (.badValue "number with too many digits")

def name (t : Tree) : Except Failure String := (content t).map (nameFor t)

def directory (resultsDir : String) : PurePath :=
  (PurePath.ofText resultsDir).join (.ofText "replay")

/-- Where the written form of a replay goes. -/
def file (resultsDir name : String) : String :=
  ((directory resultsDir).join ⟨"", [name ++ ".xml"]⟩).text

def configuration (resultsDir name : String) : Configuration :=
  .make name [Configuration.precompiledOff, Configuration.knob "JitInlinePolicyReplay" "1",
    Configuration.knob "JitInlineReplayFile" (file resultsDir name)] resultsDir

/-- Results go to the usual place unless another is given. -/
def targetDir (resultsDir : String) : String :=
  if resultsDir.isEmpty then defaultResultsDir else resultsDir

/-- The configuration that replays a tree. -/
def configurationOf (t : Tree) (resultsDir : String) : Except Failure Configuration :=
  (name t).map (configuration (targetDir resultsDir))

/-- The file has this text already. -/
def isCurrent (ws : Workspace) (path content : String) : Except Failure Bool :=
  if !ws.holds path then .ok false
  else match ws.read path with
    | .error fault => .error (.storage fault)
    | .ok bytes =>
      match Workspace.decode? bytes with
      | none => .error (.notText path)
      | some text => .ok (String.ofList text == content)

/-- Makes sure that the file of a tree is there, and gives the configuration that replays it. -/
def prepare (ws : Workspace) (t : Tree) (resultsDir : String) :
    Except Failure (Configuration × Workspace) := do
  let resultsDir := targetDir resultsDir
  let text ← content t
  let name := nameFor t text
  let path := file resultsDir name
  let ws ← (ws.makeDirectories (directory resultsDir).text).mapError .storage
  let ws ← if ← isCurrent ws path text then .ok ws else (ws.writeText path text).mapError .storage
  return (configuration resultsDir name, ws)

end InlineImpact.Replay
