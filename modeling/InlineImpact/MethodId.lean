import InlineImpact.Text.Lines
import InlineImpact.Text.Numeral
import InlineImpact.Text.Quoted

/-!
The identity of a method: its metadata token and a hash of its code. The written form is
`token:hash`, both in base sixteen and at least eight characters wide.
-/
namespace InlineImpact

structure MethodId where
  token : Int
  hash : Int := 0
  deriving DecidableEq, Repr, Inhabited

namespace MethodId

/-- Tokens first, hashes between equal tokens. -/
def Before (a b : MethodId) : Prop :=
  a.token < b.token ∨ (a.token = b.token ∧ a.hash < b.hash)

instance (a b : MethodId) : Decidable (a.Before b) := inferInstanceAs (Decidable (_ ∨ _))

def le (a b : MethodId) : Bool := !decide (b.Before a)

def text (m : MethodId) : String := Text.hex8 m.token ++ ":" ++ Text.hex8 m.hash

/-- The written form without the hash. -/
def tokenText (m : MethodId) : String := Text.hex8 m.token

/-- Reads `token` or `token:hash`; a hash that is left out or empty is zero. -/
def read? (s : List Char) : Option MethodId := do
  let (token, hash) := Text.cutAt ':' (Text.trim s)
  return ⟨← Text.readHex? token, ← if hash.isEmpty then some 0 else Text.readHex? hash⟩

/-- Ascending, each identity once. -/
def sort (ms : List MethodId) : List MethodId := ms.eraseDups.mergeSort le

end MethodId

end InlineImpact
