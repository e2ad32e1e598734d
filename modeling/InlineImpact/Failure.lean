import InlineImpact.Forest.Reader
import InlineImpact.Workspace

/-!
Everything that can stop an operation, by cause. An exploration contains some causes and is ended by
others, so it looks at the cause and never at the wording.
-/
namespace InlineImpact

/-- How one run of a benchmark went wrong. -/
inductive RunFault where
  | timedOut (benchmark configuration limit : String)
  | notLaunched (benchmark configuration : String) (fault : StorageFault)
  | exited (benchmark configuration : String) (code expected : Int)
  | noCapture (benchmark configuration path : String)
  | unreadableCapture (benchmark configuration why : String)
  /-- A failure that the host words itself. -/
  | reported (message : String)
  deriving DecidableEq, Repr

namespace RunFault

def subject (benchmark configuration : String) : String := benchmark ++ " [" ++ configuration ++ "]"

def message : RunFault → String
  | timedOut b c limit => subject b c ++ " timed out after " ++ limit ++ "s"
  | notLaunched b c fault => subject b c ++ " failed to launch: " ++ fault.message
  | exited b c code expected =>
    subject b c ++ " exited with " ++ toString code ++ ", expected " ++ toString expected
  | noCapture b c path => subject b c ++ " wrote no counter capture to " ++ path
  | unreadableCapture b c why =>
    "Unreadable counter capture for " ++ subject b c ++ ": " ++ why
  | reported message => message

end RunFault

/-- Why counters cannot be captured on a host. -/
inductive CounterFault where
  | noCommand
  | noTool (tool : String)
  | noKernelEvents (path : String)
  | tooParanoid (level : Int)
  /-- A refusal that the host words itself. -/
  | reported (message : String)
  deriving DecidableEq, Repr

def CounterFault.message : CounterFault → String
  | noCommand => "No counter capture command configured (EXPLORER_CAPTURE_COMMAND)"
  | noTool tool => "Capture tool '" ++ tool ++ "' not found"
  | noKernelEvents path => "Kernel performance events unavailable (" ++ path ++ ")"
  | tooParanoid level =>
    "perf_event_paranoid=" ++ toString level ++ "; run as root or lower it to 2 or less"
  | reported message => message

/-- Which executable is missing. -/
inductive BenchmarkFault where
  | benchmark (name path : String)
  | runner (path : String)
  deriving DecidableEq, Repr

def BenchmarkFault.message : BenchmarkFault → String
  | benchmark name path => "Benchmark " ++ name ++ " not found at " ++ path
  | runner path => "Runner not found at " ++ path

/-- Where a requested abort was noticed. -/
inductive AbortPoint where
  | afterFailure (benchmark configuration : String)
  | beforeFullTree
  deriving DecidableEq, Repr

def AbortPoint.message : AbortPoint → String
  | afterFailure b c => "Abort requested after " ++ RunFault.subject b c ++ " failed"
  | beforeFullTree => "Abort requested before the full-tree run"

/-- What is wrong with a benchmark suite that could be read. -/
inductive SuiteFault where
  | notFound (path : String)
  | incompleteEntry (entry : String)
  deriving DecidableEq, Repr

def SuiteFault.message : SuiteFault → String
  | notFound path => "Benchmark suite not found: " ++ path
  | incompleteEntry entry => "Benchmark entry needs 'name' and 'path': " ++ entry

/-- What is wrong with a template for a command. -/
inductive TemplateFault where
  | malformed
  | unknownName (name : String)
  | positional
  | noSuchPart
  | noSuchItem
  | notIndexable
  /-- A layout for a value that has one form only. -/
  | noLayout
  /-- A number that the kind of a field has no form for. -/
  | outOfRange
  deriving DecidableEq, Repr

inductive Failure where
  | run (fault : RunFault) (exitCode : Option Int)
  | counters (fault : CounterFault)
  | benchmark (fault : BenchmarkFault)
  | root (fault : RootFault)
  | forest (fault : ForestFault)
  | tree (fault : TreeFault)
  | tooFewSamples (child parent : Nat) (needed : Int)
  | aborted (point : AbortPoint)
  | suite (fault : SuiteFault)
  | storage (fault : StorageFault)
  | template (fault : TemplateFault)
  /-- Bytes that are not well-formed text. -/
  | notText (path : String)
  /-- A value that cannot be read as what it has to be. -/
  | badValue (what : String)
  /-- A number outside the range of its type. -/
  | outOfRange (what : String)
  /-- A value of the wrong kind. -/
  | wrongKind (what : String)
  | missingKey (what : String)
  | missingItem (what : String)
  | noSuchMember (what : String)
  | malformedSuite
  | badArguments
  deriving DecidableEq, Repr

namespace Failure

def message : Failure → String
  | run fault _ => fault.message
  | counters fault => fault.message
  | benchmark fault => fault.message
  | root fault => fault.message
  | forest fault => fault.message
  | tree fault => fault.message
  | tooFewSamples child parent needed =>
    toString child ++ " and " ++ toString parent ++ " iterations, need " ++ toString needed
  | aborted point => point.message
  | suite fault => fault.message
  | storage fault => fault.message
  | notText path => "not well-formed text: " ++ path
  | badValue what | outOfRange what | wrongKind what | missingKey what | missingItem what
  | noSuchMember what => what
  | template _ => "malformed command template"
  | malformedSuite => "malformed suite file"
  | badArguments => "bad arguments"

/-- The file itself cannot be used: it is missing, not text, or holds a value that cannot be read. -/
def isUnreadable : Failure → Bool
  | storage _ | notText _ | badValue _ => true
  | _ => false

end Failure

end InlineImpact
