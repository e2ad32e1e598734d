import InlineImpact.Decision
import InlineImpact.Path

/-!
Configurations: the named compiler settings of one run, and where its artifacts go. Settings are kept
in order of their names, so that equal settings make equal configurations.
-/
namespace InlineImpact

/-- Where results go unless something else is asked for. -/
def defaultResultsDir : String := "results"

/-- How deep the full model inlines unless something else is asked for. -/
def defaultDepthLimit : Int := 10

structure Configuration where
  name : String
  /-- Ascending, by name and then by value. -/
  environment : List (String × String)
  resultsDir : String
  deriving DecidableEq, Repr

namespace Configuration

def settingLe (a b : String × String) : Bool := a.1 < b.1 || (a.1 = b.1 && !decide (b.2 < a.2))

def make (name : String) (settings : List (String × String)) (resultsDir : String) : Configuration :=
  { name, environment := settings.mergeSort settingLe
    resultsDir := if resultsDir.isEmpty then defaultResultsDir else resultsDir }

/-- The settings by name; of several values the last counts. -/
def settings (c : Configuration) : Keyed String String := Keyed.ofPairs c.environment

/-- The path of an artifact of a benchmark under this configuration. -/
def artifact (c : Configuration) (benchmark suffix : String) : String :=
  Path.join c.resultsDir (benchmark ++ "-" ++ c.name ++ "." ++ suffix)

/-- Where the run's log goes. -/
def logFile (c : Configuration) (benchmark : String) : String := c.artifact benchmark "err"

/-- Where the run's counter capture goes. -/
def eventsFile (c : Configuration) (benchmark : String) : String := c.artifact benchmark "events"

/-- A setting of the compiler, as the environment spells it. -/
def knob (name value : String) : String × String := ("COMPlus_" ++ name, value)

def precompiledOff : String × String := knob "ZapDisable" "1"

def dumpForest : String × String := knob "JitInlineDumpXml" "1"

/-- Nothing is inlined. -/
def base (resultsDir : String) : Configuration :=
  make "base" [precompiledOff, knob "JitInlinePolicyDiscretionary" "1", knob "JitInlineLimit" "0",
    dumpForest] resultsDir

/-- What the compiler does on its own. -/
def standard (resultsDir : String) : Configuration :=
  make "default" [precompiledOff, dumpForest] resultsDir

/-- All that can be reached down to a depth is inlined. -/
def full (resultsDir : String) (depthLimit : Int) : Configuration :=
  make "full" [precompiledOff, knob "JitInlinePolicyFull" "1",
    knob "JitInlineDepthLimit" (toString depthLimit), dumpForest] resultsDir

end Configuration

end InlineImpact
