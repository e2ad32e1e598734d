import InlineImpact.Decision

/-!
Inlining trees: the decisions in effect for one root method. No two decisions of a tree stand at the
same path, and every decision comes with the one above it. The decisions are kept breadth first, so
that each prefix of them is a tree again.
-/
namespace InlineImpact

/-- Why a set of decisions or a change of one was refused. -/
inductive TreeFault where
  | noCallSite
  | duplicatePath (root : MethodId)
  | missingParent (path : CallPath) (root : MethodId)
  | alreadyPresent (path : CallPath)
  | notPresent (path : CallPath)
  | hasDescendants (path : CallPath)
  | foreignSite (path : CallPath) (root : MethodId)
  deriving DecidableEq, Repr

def TreeFault.message : TreeFault → String
  | .noCallSite => "An inline decision needs at least one call site"
  | .duplicatePath root => "Duplicate call-site path in tree for " ++ root.text
  | .missingParent path root =>
    "Decision " ++ path.text ++ " for " ++ root.text ++ " is missing its parent decision"
  | .alreadyPresent path => "Decision " ++ path.text ++ " is already in the tree"
  | .notPresent path => "Decision " ++ path.text ++ " is not in the tree"
  | .hasDescendants path =>
    "Decision " ++ path.text ++ " has inlined descendants and cannot be removed"
  | .foreignSite path root =>
    "Call site " ++ path.listing ++ " is not part of the tree for " ++ root.text

/-- The decision stands in the root itself, or the one above it is among `ds`. -/
def Decision.Supported (ds : List Decision) (d : Decision) : Prop :=
  d.above = [] ∨ ∃ e ∈ ds, e.path = d.above

instance (ds : List Decision) (d : Decision) : Decidable (d.Supported ds) :=
  inferInstanceAs (Decidable (_ ∨ _))

structure Tree where
  root : MethodId
  decisions : List Decision
  ordered : decisions.Pairwise Decision.Before
  supported : ∀ d ∈ decisions, d.Supported decisions

namespace Tree

def empty (root : MethodId) : Tree := ⟨root, [], .nil, by simp⟩

/-- The tree with these decisions; of equal ones the first is kept. -/
def ofDecisions (root : MethodId) (ds : List Decision) : Except TreeFault Tree :=
  let sorted := (Decision.distinct ds).mergeSort Decision.le
  if ordered : sorted.Pairwise Decision.Before then
    match h : sorted.find? fun d => !decide (d.Supported sorted) with
    | some d => .error (.missingParent d.path root)
    | none => .ok ⟨root, sorted, ordered, by simpa using h⟩
  else .error (.duplicatePath root)

def size (t : Tree) : Nat := t.decisions.length

/-- A decision with this path and hash is in the tree. -/
def has (t : Tree) (d : Decision) : Bool := t.decisions.any (·.key = d.key)

def find? (t : Tree) (p : CallPath) : Option Decision := t.decisions.find? (·.path = p)

/-- The decisions directly below a path, those of the root below the empty one. -/
def below (t : Tree) (p : CallPath) : List Decision := t.decisions.filter (·.above = p)

def children (t : Tree) (d : Option Decision) : List Decision :=
  t.below (match d with
    | some d => d.path
    | none => [])

def isLeaf (t : Tree) (d : Decision) : Bool := t.has d && (t.below d.path).isEmpty

/-- The decisions whose path is that of no decision above another one. -/
def leaves (t : Tree) : List Decision :=
  let inner := t.decisions.map (·.above)
  t.decisions.filter (·.path ∉ inner)

def insert (t : Tree) (d : Decision) : Except TreeFault Tree :=
  if t.has d then .error (.alreadyPresent d.path)
  else ofDecisions t.root (t.decisions ++ [d])

/-- Removes a leaf; a decision with others below it stays. -/
def erase (t : Tree) (d : Decision) : Except TreeFault Tree :=
  if !t.has d then .error (.notPresent d.path)
  else if !t.isLeaf d then .error (.hasDescendants d.path)
  else ofDecisions t.root (t.decisions.filter (·.key ≠ d.key))

/-- One root, and every decision of `x` is one of `y`. -/
def isSubtreeOf (x y : Tree) : Bool := x.root = y.root && x.decisions.all y.has

/-- `y` has one more decision than its subtree `x`. -/
def isProperParentOf (x y : Tree) : Bool := isSubtreeOf x y && y.size = x.size + 1

/-- The same root and the same decisions. -/
def same (x y : Tree) : Bool := isSubtreeOf x y && isSubtreeOf y x

/-- Every tree that lacks exactly one leaf of `t`. -/
def properParents (t : Tree) : Except TreeFault (List Tree) := t.leaves.mapM t.erase

/-- The part of the tree at the given paths. -/
def restrict (t : Tree) (paths : List CallPath) : Except TreeFault Tree := do
  let chosen ← paths.mapM fun p =>
    match t.find? p with
    | some d => .ok d
    | none => .error (.foreignSite p t.root)
  ofDecisions t.root chosen

end Tree

end InlineImpact
