import InlineImpact.Forest
import InlineImpact.Markup.Writer
import InlineImpact.Text.Numeral

/-!
Writing trees as a report that can be read back, and that the compiler replays. Roots and call sites
are in ascending order, so that equal trees have one written form.
-/
namespace InlineImpact

namespace Tree

open Markup (Hedge)

def numberLeaf (tag : String) (n : Int) : Markup.Element := ⟨tag, toString n, .empty⟩

/-- The list of the decisions below a path, down to `levels` levels; empty if there are none. -/
def inlinesBelow (t : Tree) : (levels : Nat) → CallPath → List Markup.Element
  | 0, _ => []
  | levels + 1, p =>
    match t.below p with
    | [] => []
    | ds => [⟨"Inlines", "", .ofList (ds.map fun d => ⟨"Inline", "", .ofList
        ([numberLeaf "MethodToken" d.site.token, numberLeaf "Hash" d.calleeHash,
          numberLeaf "Offset" d.site.offset] ++ t.inlinesBelow levels d.path)⟩)⟩]

/-- The element of a root method. No decision is deeper than the tree has decisions. -/
def element (t : Tree) : Markup.Element :=
  ⟨"Method", "", .ofList
    ([numberLeaf "Token" t.root.token, numberLeaf "Hash" t.root.hash,
      numberLeaf "InlineCount" t.size] ++ t.inlinesBelow t.size [])⟩

/-- Every number of a tree. -/
def numbers (t : Tree) : List Int :=
  t.root.token :: t.root.hash ::
    t.decisions.flatMap fun d => [d.site.token, d.calleeHash, d.site.offset]

end Tree

namespace Forest

/-- The written form of some trees. -/
def dumpText (ts : List Tree) : String :=
  let methods := (ts.mergeSort fun a b => MethodId.le a.root b.root).map Tree.element
  String.ofList (Markup.writeDocument "InlineForest" (.node "Methods" (.ofList methods)))

/-- The number has no more digits than a reader accepts. -/
def hasReadableSize (n : Int) : Bool := n.natAbs < Nat.pow 10 Text.maxDigits

/-- The written form, unless it would hold a number that is too long to be read again. -/
def dump? (ts : List Tree) : Option String :=
  if ts.all fun t => t.numbers.all hasReadableSize then some (dumpText ts) else none

end Forest

end InlineImpact
