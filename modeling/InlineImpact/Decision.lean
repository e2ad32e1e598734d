import InlineImpact.Datum
import InlineImpact.Keyed
import InlineImpact.MethodId

/-!
Inlining decisions. A decision stands at a call site and is identified by the call sites on the way
to it from a root method, together with the hash of the method that is inlined there.
-/
namespace InlineImpact

/-- A call inside a method body: where it stands and the token of the method that it calls. -/
structure CallSite where
  offset : Int
  token : Int
  deriving DecidableEq, Repr, Inhabited

namespace CallSite

def Before (a b : CallSite) : Prop :=
  a.offset < b.offset ∨ (a.offset = b.offset ∧ a.token < b.token)

instance : LT CallSite := ⟨Before⟩

instance (a b : CallSite) : Decidable (a < b) := inferInstanceAs (Decidable (_ ∨ _))

def text (s : CallSite) : String := toString s.offset ++ "->" ++ Text.hex8 s.token

end CallSite

/-- The call sites from a root down to a decision. -/
abbrev CallPath := List CallSite

namespace CallPath

def text (p : CallPath) : String := "/".intercalate (p.map CallSite.text)

/-- The path as a list of pairs in parentheses. -/
def listing (p : CallPath) : String :=
  match p with
  | [s] => "((" ++ toString s.offset ++ ", " ++ toString s.token ++ "),)"
  | _ =>
    "(" ++ ", ".intercalate (p.map fun s =>
      "(" ++ toString s.offset ++ ", " ++ toString s.token ++ ")") ++ ")"

/-- Shorter paths first, call site order between paths of one length. -/
def Before (p q : CallPath) : Prop :=
  p.length < q.length ∨ (p.length = q.length ∧ List.Lex (· < ·) p q)

instance (p q : CallPath) : Decidable (Before p q) := inferInstanceAs (Decidable (_ ∨ _))

end CallPath

/-- A decision to inline. Its path is `above` followed by `site`, so it is never empty; what the
compiler said about the call site takes no part in the identity. -/
structure Decision where
  above : CallPath
  site : CallSite
  calleeHash : Int := 0
  caller : Option MethodId := .none
  reason : String := ""
  features : Keyed String Datum := []

namespace Decision

def path (d : Decision) : CallPath := d.above ++ [d.site]

def depth (d : Decision) : Nat := d.above.length + 1

def callee (d : Decision) : MethodId := ⟨d.site.token, d.calleeHash⟩

/-- The identity of a decision within a root. -/
def key (d : Decision) : CallPath × Int := (d.path, d.calleeHash)

/-- The call site that a decision is about, whatever root it was reached from. -/
structure Context where
  caller : Option MethodId
  offset : Int
  callee : MethodId
  deriving DecidableEq, Repr

def context (d : Decision) : Context := ⟨d.caller, d.site.offset, d.callee⟩

def text (d : Decision) : String := CallPath.text d.path

/-- The decision with a given path. -/
def ofPath? (path : CallPath) (calleeHash : Int) (caller : Option MethodId) (reason : String)
    (features : Keyed String Datum) : Option Decision :=
  path.getLast?.map fun site => ⟨path.dropLast, site, calleeHash, caller, reason, features⟩

/-- Breadth first, call site order within a level. -/
def Before (d e : Decision) : Prop := CallPath.Before d.path e.path

instance (d e : Decision) : Decidable (d.Before e) := inferInstanceAs (Decidable (CallPath.Before _ _))

def le (d e : Decision) : Bool := !decide (e.Before d)

/-- Drops every decision that has the identity of an earlier one. -/
def distinct : List Decision → List Decision
  | [] => []
  | d :: rest => d :: (distinct rest).filter (·.key ≠ d.key)

@[simp] theorem path_ne_nil (d : Decision) : d.path ≠ [] := by simp [path]

@[simp] theorem length_path (d : Decision) : d.path.length = d.depth := by simp [path, depth]

end Decision

end InlineImpact
