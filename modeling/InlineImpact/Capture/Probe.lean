import InlineImpact.Failure
import InlineImpact.Settings

/-!
Checking once, before anything is run, that a host lets counters be captured.
-/
namespace InlineImpact.Capture

/-- What a host has to say about counters. -/
structure HostFacts where
  /-- A tool of this name can be started. -/
  finds : String → Bool
  isLinux : Bool
  /-- The file in which the kernel says how much it lets users see. -/
  levelFile : String
  /-- The text of that file, if it can be read. -/
  level : Option String
  isAdministrator : Bool

/-- The name of the tool that a command starts. -/
def toolOf (command : String) : Except Failure String :=
  match Text.words command.toList with
  | [] => .error (.missingItem "capture command")
  | tool :: _ => .ok (String.ofList tool)

/-- Users may see events up to level two. -/
def checkKernel (facts : HostFacts) : Except Failure Unit :=
  match facts.level.bind fun s => Text.readInt? (Text.trim s.toList) with
  | none => .error (.counters (.noKernelEvents facts.levelFile))
  | some level =>
    if 2 < level && !facts.isAdministrator then .error (.counters (.tooParanoid level)) else .ok ()

def probe (facts : HostFacts) (settings : Settings) : Except Failure Unit := do
  if settings.captureCommand.isEmpty then .error (.counters .noCommand)
  else
    let tool ← toolOf settings.captureCommand
    if !facts.finds tool then .error (.counters (.noTool tool))
    else if facts.isLinux then checkKernel facts
    else .ok ()

end InlineImpact.Capture
