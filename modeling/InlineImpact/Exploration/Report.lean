import InlineImpact.Json
import InlineImpact.MethodId

/-!
What an exploration tells at its end: for every benchmark its roots, and for every root how far it got.
-/
namespace InlineImpact.Exploration

inductive RootState where
  | unvisited
  | queued
  | measuring
  | advance
  | shortCircuited
  | exhausted
  | excluded
  | aborted
  deriving DecidableEq, Repr

def RootState.text : RootState → String
  | unvisited => "unvisited"
  | queued => "queued"
  | measuring => "measuring"
  | advance => "advance"
  | shortCircuited => "short-circuited"
  | exhausted => "exhausted"
  | excluded => "excluded"
  | aborted => "aborted"

structure RootReport where
  root : MethodId
  state : RootState := .unvisited
  /-- Decisions that were measured. -/
  pairs : Nat := 0
  /-- Decisions that were measured before, somewhere else. -/
  skipped : Nat := 0
  /-- Decisions without data. -/
  missing : Nat := 0
  reason : String := ""
  deriving DecidableEq, Repr

structure BenchmarkReport where
  benchmark : String
  /-- The excluded roots, and the others in the order in which they are visited. -/
  roots : List RootReport := []
  error : Option String := none
  deriving DecidableEq, Repr

structure Report where
  benchmarks : List BenchmarkReport := []
  rowsWritten : Nat := 0
  aborted : Bool := false
  deriving DecidableEq, Repr

def RootReport.isAborted (r : RootReport) : Bool := r.state = .aborted

def RootReport.toJson (r : RootReport) : Json := .object [
  ("root", .string r.root.text), ("state", .string r.state.text), ("pairs", .int r.pairs),
  ("skipped", .int r.skipped), ("missing", .int r.missing), ("reason", .string r.reason)]

def BenchmarkReport.toJson (b : BenchmarkReport) : Json := .object [
  ("benchmark", .string b.benchmark), ("error", b.error.elim .null .string),
  ("roots", .array (b.roots.map RootReport.toJson))]

def Report.toJson (r : Report) : Json := .object [
  ("rows_written", .int r.rowsWritten), ("aborted", .bool r.aborted),
  ("benchmarks", .array (r.benchmarks.map BenchmarkReport.toJson))]

end InlineImpact.Exploration
