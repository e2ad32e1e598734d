import InlineImpact.Benchmark.Run
import InlineImpact.Shell.State

/-!
Steps of a shell. A command lets the shell go on, or it interrupts it: the shell ends, loops are left,
or a function is.
-/
namespace InlineImpact.Shell

inductive Interrupt where
  | ended (e : Ending)
  /-- Leaves this many loops; the last of them goes on with its next turn if `again`. -/
  | left (loops : Nat) (again : Bool)
  /-- Leaves a function or a script that was read in. -/
  | returned
  deriving DecidableEq, Repr

/-- Nothing if the shell goes on, or what interrupts it. -/
abbrev Step := Option Interrupt × State

namespace Step

def proceed (st : State) (status : Int) : Step := (none, { st with status })

/-- The shell ends with a status of one byte. -/
def finish (st : State) (status : Int) : Step := (some (.ended (.exited status)), st)

/-- Says what went wrong and ends the shell. -/
def abort (st : State) (words : List String) : Step := finish (st.complain words) 2

/-- Goes on with the next command unless something interrupts. -/
def andThen (step : Step) (next : State → Step) : Step :=
  match step with
  | (none, st) => next st
  | interrupted => interrupted

/-- Time passes; the limit may be reached. -/
def spend (seconds : Float) (st : State) : Step :=
  let elapsed := st.elapsed + seconds
  (if st.limit ≤ elapsed then some (.ended .timedOut) else none, { st with elapsed })

/-- A failure that nobody looks at ends the shell if it is told to be strict. -/
def checked (step : Step) : Step :=
  match step with
  | (none, st) =>
    if st.status ≠ 0 && st.options.contains 'e' && !st.tested then finish st st.status else (none, st)
  | interrupted => interrupted

/-- How a process ends after its last command. -/
def ending (step : Step) : Ending × State :=
  match step with
  | (some (.ended e), st) => (e, st)
  | (_, st) => (.exited st.status, st)

end Step

/-- The status of a process that ended; death by a signal counts from 128. -/
def statusOf (code : Int) : Int := if code < 0 then 128 - code else code

/-- What a process of its own leaves behind in the shell that started it. -/
def leftBehind (outer inner : State) : State :=
  { outer with
    workspace := { inner.workspace with here := outer.workspace.here }
    kept := inner.kept, input := inner.input, elapsed := inner.elapsed }

/-- Waits for a process of its own. -/
def waited (outer : State) (process : Ending × State) : Step :=
  let st := leftBehind outer process.2
  match process.1 with
  | .exited code => Step.proceed st (statusOf code)
  | other => (some (.ended other), st)

end InlineImpact.Shell
