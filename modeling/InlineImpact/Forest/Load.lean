import InlineImpact.Failure

/-!
Loading a forest from a log file. Bytes that are not well-formed text are replaced, so that noise in
a log does not hide its report.
-/
namespace InlineImpact

def Forest.load (ws : Workspace) (path : String) : Except Failure Forest :=
  match ws.read path with
  | .error fault =>
    if fault.error = .unnameable then .error (.storage fault)
    else .error (.forest (.unreadable path fault.message))
  | .ok bytes => (Forest.read (Text.unifyLineEnds (Text.decodeLossy bytes).toList)).mapError .forest

end InlineImpact
