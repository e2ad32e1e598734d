import InlineImpact.Benchmark.Run
import InlineImpact.Dataset

/-!
The host that runs benchmarks, and what an exploration keeps while it works on it. The host answers
four questions and has a state of its own; laws hold for every host. A session's journal and the set
of explored contexts only ever grow, also when an operation fails.
-/
namespace InlineImpact.Exploration

structure Host (W : Type) where
  /-- Lets counters be captured, or says why not. -/
  probe : Settings → Except Failure Unit
  /-- Runs a benchmark once under a configuration. -/
  run : Settings → Bool → Benchmark → Configuration → Workspace → W → Trial CompletedRun × W
  /-- Reads a capture file; the number is the instructions for each rollover. -/
  load : String → Int → Workspace → W → Except Failure Measurement × W
  /-- An abort is requested. -/
  poll : W → Bool × W

/-- What an exploration did that can be observed from outside. -/
inductive Event where
  /-- A tree was written out for replay. -/
  | prepared (tree : Tree)
  /-- A benchmark was run once, and came to this. -/
  | ran (benchmark : Benchmark) (configuration : Configuration) (outcome : Except Failure CompletedRun)
  /-- The capture of the last run was read. -/
  | loaded (outcome : Except Failure Measurement)
  /-- The forest in the log of the last run was read. -/
  | reported (forest : Forest)
  /-- It was asked whether an abort is requested. -/
  | polled (answer : Bool)
  /-- A row was handed out. -/
  | emitted (row : Dataset.Row)

namespace Event

def launch? : Event → Option (String × String)
  | ran b c _ => some (b.name, c.name)
  | _ => none

def row? : Event → Option Dataset.Row
  | emitted row => some row
  | _ => none

end Event

structure Session (W : Type) where
  world : W
  workspace : Workspace
  dataset : Option Dataset.Writer
  /-- What is measured already, by the names of benchmark and configuration. -/
  measurements : Keyed (String × String) Measurement := []
  /-- The contexts that have a row with an estimate. -/
  explored : List Decision.Context := []
  /-- What was done so far, in order. -/
  journal : List Event := []
  output : String := ""

/-- The runs that were started, by benchmark and configuration. -/
def Session.launches (s : Session W) : List (String × String) := s.journal.filterMap Event.launch?

/-- The rows that were handed out. -/
def Session.rows (s : Session W) : List Dataset.Row := s.journal.filterMap Event.row?

/-- The session with one more event in its journal. -/
def Session.note (s : Session W) (event : Event) : Session W := { s with journal := s.journal ++ [event] }

/-- An operation of an exploration. What it did before it failed stays done. -/
abbrev Exploring (W : Type) := ExceptT Failure (StateM (Session W))

/-- An explorer: its host, its settings, and how much it says. -/
structure Explorer (W : Type) where
  host : Host W
  settings : Settings
  verbose : Bool := false
  veryVerbose : Bool := false

variable {W : Type}

/-- Carries an operation out on a session. -/
def Exploring.on (x : Exploring W α) (s : Session W) : Except Failure α × Session W := x.run.run s

/-- The outcome of an operation, also if it fails. -/
def caught (x : Exploring W α) : Exploring W (Except Failure α) := fun s =>
  let (outcome, s) := x.on s
  (.ok outcome, s)

def say (text : String) : Exploring W Unit := modify fun s => { s with output := s.output ++ text }

def demand (r : Except Failure α) : Exploring W α := fun s => (r, s)

def isExplored (c : Decision.Context) : Exploring W Bool := do return (← get).explored.contains c

def markExplored (c : Decision.Context) : Exploring W Unit :=
  modify fun s => if s.explored.contains c then s else { s with explored := s.explored ++ [c] }

/-- Hands a row out, and appends it to the dataset if there is one. -/
def emit (row : Dataset.Row) : Exploring W Unit := fun s =>
  match s.dataset with
  | none => (.ok (), s.note (.emitted row))
  | some w =>
    match w.append s.workspace row with
    | (.ok (), w, workspace) =>
      (.ok (), { s with dataset := some w, workspace }.note (.emitted row))
    | (.error failure, w, workspace) => (.error failure, { s with dataset := some w, workspace })

namespace Explorer

variable (e : Explorer W)

/-- Asks whether an abort is requested. -/
def poll : Exploring W Bool := fun s =>
  let (answer, world) := e.host.poll s.world
  (.ok answer, { s with world }.note (.polled answer))

def launch (b : Benchmark) (c : Configuration) : Exploring W CompletedRun := fun s =>
  let (trial, world) := e.host.run e.settings e.veryVerbose b c s.workspace s.world
  (trial.outcome, { s with
    world, workspace := trial.workspace
    output := s.output ++ trial.output }.note (.ran b c trial.outcome))

def load (path : String) : Exploring W Measurement := fun s =>
  let (outcome, world) := e.host.load path e.settings.pmcInterval s.workspace s.world
  (outcome, { s with world }.note (.loaded outcome))

end Explorer

end InlineImpact.Exploration
