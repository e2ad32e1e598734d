import InlineImpact.Tree

/-!
Forests: the inline trees of all root methods that one run reported. A root that the run reported
twice, or whose decisions do not form a tree, is ambiguous and has no tree. Trees and ambiguous roots
are kept in ascending order of the roots, so the order of the report leaves no trace.
-/
namespace InlineImpact

/-- What the compiler measured about a root method itself. -/
structure MethodRecord where
  inlineCount : Int := 0
  hotSize : Int := 0
  coldSize : Int := 0
  jitTime : Int := 0
  sizeEstimate : Int := 0
  timeEstimate : Int := 0
  callCount : Int := 0
  deriving DecidableEq, Repr

/-- A root method as reported, before its decisions are known to form a tree. -/
structure MethodReport where
  root : MethodId
  record : MethodRecord
  decisions : List Decision

namespace MethodReport

/-- The tree of the reported decisions, if no two of them stand at one path. -/
def tree? (m : MethodReport) : Option Tree :=
  if (m.decisions.map (·.path)).Nodup then (Tree.ofDecisions m.root m.decisions).toOption else none

end MethodReport

structure Forest where
  trees : List Tree
  records : Keyed MethodId MethodRecord
  ambiguous : List MethodId

/-- Why a root has no tree to offer. -/
inductive RootFault where
  | ambiguous (root : MethodId)
  | unknown (root : MethodId)
  deriving DecidableEq, Repr

def RootFault.message : RootFault → String
  | .ambiguous root => "Ambiguous root method " ++ root.text
  | .unknown root => "Unknown root method " ++ root.text

namespace Forest

/-- The report's trees, each with its record. -/
def accepted (ms : List MethodReport) : List (Tree × MethodRecord) :=
  ms.filterMap fun m =>
    if ms.countP (·.root = m.root) = 1 then m.tree?.map (·, m.record) else none

def ofReports (ms : List MethodReport) : Forest :=
  let kept := (accepted ms).mergeSort fun a b => MethodId.le a.1.root b.1.root
  let roots := kept.map (·.1.root)
  { trees := kept.map Prod.fst
    records := kept.map fun (t, r) => (t.root, r)
    ambiguous := MethodId.sort ((ms.map (·.root)).filter fun r => !roots.contains r) }

def roots (f : Forest) : List MethodId := f.trees.map (·.root)

def size (f : Forest) : Nat := f.trees.length

def inlineCount (f : Forest) : Nat := f.trees.foldr (fun t n => t.size + n) 0

def contains (f : Forest) (root : MethodId) : Bool := f.roots.contains root

def tree (f : Forest) (root : MethodId) : Except RootFault Tree :=
  if f.ambiguous.contains root then .error (.ambiguous root)
  else match f.trees.find? (·.root = root) with
    | some t => .ok t
    | none => .error (.unknown root)

def record? (f : Forest) (root : MethodId) : Option MethodRecord := f.records.get? root

def forgetRecord (f : Forest) (root : MethodId) : Forest :=
  { f with records := f.records.filter (·.1 ≠ root) }

/-- The calls to a root: the given count if there is one, else the reported one. -/
def callsTo (f : Forest) (counts : MethodId → Option Int) (root : MethodId) : Int :=
  (counts root).getD (((f.record? root).map (·.callCount)).getD 0)

/-- The roots by descending calls; equally often called ones by identity. -/
def rootsByCalls (f : Forest) (counts : MethodId → Option Int) : List MethodId :=
  f.roots.mergeSort fun a b =>
    let m := f.callsTo counts a
    let n := f.callsTo counts b
    n < m || (m = n && MethodId.le a b)

end Forest

end InlineImpact
