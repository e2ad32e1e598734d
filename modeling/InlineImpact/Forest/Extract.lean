import InlineImpact.Failure

/-!
Extracting a part of a root's tree. The decisions of the part are chosen one by one, and they have to be
a tree again.
-/
namespace InlineImpact

/-- What a decision is chosen by. A decision of any tree stands for its path, whatever is inlined there. -/
inductive Choice where
  | decision (d : Decision)
  | path (p : CallPath)

def Choice.toPath : Choice → CallPath
  | decision d => d.path
  | path p => p

/-- The part of the root's tree that was chosen. -/
def Forest.extract (f : Forest) (root : MethodId) (choices : List Choice) : Except Failure Tree := do
  let full ← (f.tree root).mapError .root
  (full.restrict (choices.map Choice.toPath)).mapError .tree

end InlineImpact
